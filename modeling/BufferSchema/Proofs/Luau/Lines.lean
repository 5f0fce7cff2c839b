import BufferSchema.Proofs.Luau.Declarations
import BufferSchema.Proofs.Luau.Functions

/-!
# A module read line by line

Nothing that is put into a module has a line feed in it: names, types, numbers and dates have none. So splitting
the text at its line feeds gives the lines of the chunks that it was made of.
-/

namespace BufferSchema

open Text (IsIdentifier OneLine oneLine_append)

theorem Timestamp.isDigit_of_mem_padded (width n : Nat) : ∀ c ∈ (padded width n).toList, c.isDigit = true := by
  intro c hc
  rw [padded, String.toList_append, String.toList_ofList] at hc
  rcases List.mem_append.1 hc with hc | hc
  · rw [List.eq_of_mem_replicate hc]
    decide
  · exact Text.isDigit_of_mem_toString n c hc

/-- A date has digits, signs, colons and blanks in it. -/
theorem Timestamp.not_mem_text (t : Timestamp) {c : Char} (hdigit : c.isDigit = false)
    (hother : c ∉ ['-', '+', ':', ' ']) : c ∉ t.text.toList := by
  simp only [List.mem_cons, List.not_mem_nil, or_false, not_or] at hother
  obtain ⟨hminus, hplus, hcolon, hblank⟩ := hother
  have hpadded : ∀ width n : Nat, c ∉ (padded width n).toList := fun width n hc =>
    Bool.false_ne_true (hdigit.symm.trans (isDigit_of_mem_padded width n c hc))
  have hyear : c ∉ (yearText t.year).toList := by
    unfold yearText
    split
    · simp [hminus, hpadded]
    · split <;> simp [hplus, hpadded]
  simp [text, toString, hpadded, hyear, hminus, hcolon, hblank]

theorem Timestamp.oneLine_text (t : Timestamp) : OneLine t.text := t.not_mem_text (by decide) (by decide)

/-- A path is on one line if the directory and the name are. The separator breaks none. -/
theorem Path.oneLine_join {dir name : String} (hdir : OneLine dir) (hname : OneLine name) :
    OneLine (join dir name) := by
  have hslash : OneLine "/" := by decide
  unfold join
  split
  · exact hname
  · split <;> simp [hdir, hname, hslash]

theorem Builtin.oneLine_hostType (b : Builtin) : OneLine b.hostType := by
  cases b <;> decide

/-- Around its element, a decoded type adds only brackets, braces and words. -/
theorem TypeRef.oneLine_hostType {type : TypeRef} (h : OneLine type.element.name) : OneLine type.hostType := by
  have helement : OneLine type.element.hostType := by
    cases he : type.element with
    | builtin b => exact b.oneLine_hostType
    | struct name =>
      rw [he] at h
      exact h
  have hbraces : OneLine "\x7b [number] : " ∧ OneLine "\x7b [string] : " ∧ OneLine " \x7d" := by decide
  unfold hostType
  split <;> simp [toString, helement, hbraces]

namespace Luau

variable {c : Config} {t : Struct}

theorem Config.oneLine_indent (c : Config) : OneLine c.indent := Text.oneLine_replicate c.indentSpaces (by decide)

/-- The name of a module's file has a dot in it, beside the characters of names. -/
theorem not_mem_fileName {s : Schema} (h : Name.Faultless s.exports) {x : Char} (hpart : Text.isNamePart x = false)
    (hdot : x ≠ '.') : x ∉ (fileName s).toList := by
  have hsuffix : ".luau".toList.all (fun x => Text.isNamePart x || x == '.') = true := by decide
  intro hx
  rw [fileName, String.toList_append, List.mem_append] at hx
  rcases hx with hx | hx
  · exact Bool.false_ne_true (hpart.symm.trans (h.identifier.isNamePart x hx))
  · simpa [hpart, hdot] using List.all_eq_true.1 hsuffix x hx

theorem oneLine_fieldLine (h : t.Printable) {f : Field} (hf : f ∈ t.fields) : OneLine (fieldLine c.indent f) := by
  have hline : OneLine (c.indent ++ f.name ++ " : " ++ f.type.hostType ++ ";") := by
    have hname := Text.oneLine_of_isIdentifier (h.fields f hf)
    have htype := TypeRef.oneLine_hostType (Text.oneLine_of_isIdentifier (h.elements f hf))
    simp only [oneLine_append]
    exact ⟨⟨⟨⟨c.oneLine_indent, hname⟩, by decide⟩, htype⟩, by decide⟩
  unfold fieldLine
  split
  · simp only [oneLine_append]
    exact ⟨⟨⟨by simpa only [oneLine_append] using hline, by decide⟩, Text.oneLine_toString _⟩, by decide⟩
  · exact hline

theorem Step.oneLine_binding {s : Step} (hfield : IsIdentifier s.field.toList)
    (htarget : IsIdentifier s.target.toList) : OneLine s.binding := by
  simp only [binding, oneLine_append]
  exact ⟨⟨Text.oneLine_of_isIdentifier hfield, by decide⟩, Text.oneLine_of_isIdentifier htarget⟩

/-- A statement is put together from identifiers and fixed words, so it is on one line. -/
theorem oneLine_statement (h : t.Printable) (d : Direction) {st : Statement}
    (hst : st ∈ (Body.ofStruct t).statements d) : OneLine st.text := by
  have hcomma : OneLine ", " := by decide
  have hcall : ∀ s ∈ (Body.ofStruct t).steps,
      OneLine (s.codec.function d) ∧ ∀ a ∈ s.codec.arguments d, OneLine a := by
    intro s hs
    obtain ⟨f, hf, -, hcodec⟩ := Body.codec_of_mem_ofStruct hs
    rw [hcodec]
    obtain ⟨hfunction, harguments⟩ := isPath_codec d (isPath_of_isIdentifier (h.elements f hf))
    exact ⟨hfunction.oneLine, fun a ha => (harguments a ha).oneLine⟩
  cases d with
  | write =>
    obtain ⟨s, hs, rfl⟩ := List.mem_map.1 hst
    obtain ⟨hfunction, harguments⟩ := hcall s hs
    have hfield := Text.oneLine_of_isIdentifier (Body.isIdentifier_of_mem_ofStruct h.fields hs).1
    have hlist : ∀ a ∈ ["buff", "cursor", "input." ++ s.field] ++ s.codec.arguments .write, OneLine a := by
      have howner : OneLine "buff" ∧ OneLine "cursor" ∧ OneLine "input." := by decide
      simpa [howner, hfield] using harguments
    have hall := Text.oneLine_intercalate hcomma hlist
    rw [s.text_write]
    unfold Step.writeStatement
    simp only [toString, oneLine_append]
    exact ⟨⟨⟨⟨by decide, hfunction⟩, by decide⟩, hall⟩, by decide⟩
  | read =>
    have htarget : ∀ s ∈ (Body.ofStruct t).steps, OneLine s.target :=
      fun s hs => Text.oneLine_of_isIdentifier (Body.isIdentifier_of_mem_ofStruct h.fields hs).2
    rcases List.mem_cons.1 hst with rfl | hst
    · have hnames := Text.oneLine_intercalate hcomma (List.forall_mem_map.2 htarget)
      exact oneLine_append.2 ⟨by decide, hnames⟩
    · obtain ⟨s, hs, rfl⟩ := List.mem_map.1 hst
      obtain ⟨hfunction, harguments⟩ := hcall s hs
      have hlist : ∀ a ∈ ["buff", "cursor"] ++ s.codec.arguments .read, OneLine a := by
        have howner : OneLine "buff" ∧ OneLine "cursor" := by decide
        simpa [howner] using harguments
      have hall := Text.oneLine_intercalate hcomma hlist
      rw [s.text_read]
      unfold Step.readStatement
      simp only [toString, oneLine_append]
      exact ⟨⟨⟨⟨⟨⟨by decide, htarget s hs⟩, by decide⟩, hfunction⟩, by decide⟩, hall⟩, by decide⟩

theorem oneLine_record (h : t.Printable) : OneLine (Body.ofStruct t).record := by
  have hentries : ∀ e ∈ (Body.ofStruct t).steps.map Step.entry, OneLine e := by
    rw [List.forall_mem_map]
    intro s hs
    obtain ⟨hfield, htarget⟩ := Body.isIdentifier_of_mem_ofStruct h.fields hs
    rw [s.entry_eq]
    exact oneLine_append.2 ⟨Step.oneLine_binding hfield htarget, by decide⟩
  have hall := Text.oneLine_intercalate (by decide : OneLine " ") hentries
  unfold Body.record
  simp only [toString, oneLine_append]
  exact ⟨⟨by decide, hall⟩, by decide⟩

theorem oneLine_returnLines (h : t.Printable) : ∀ l ∈ Chunk.returnLines c t, OneLine l := by
  intro l hl
  have hne : (Body.ofStruct t).steps.map Step.binding ≠ [] := by simpa using Body.steps_ne_nil h.fields_ne_nil
  obtain ⟨entry, hentry, ending, hending, hline⟩ := exists_of_mem_recordLines hne hl
  obtain ⟨s, hs, rfl⟩ := List.mem_map.1 hentry
  obtain ⟨hfield, htarget⟩ := Body.isIdentifier_of_mem_ofStruct h.fields hs
  have hending' : OneLine ending := (by decide : ∀ e ∈ [";", "; \x7d"], OneLine e) ending hending
  have hrest := oneLine_append.2 ⟨Step.oneLine_binding hfield htarget, hending'⟩
  rcases hline with rfl | rfl
  · exact oneLine_append.2 ⟨oneLine_append.2 ⟨c.oneLine_indent, by decide⟩, hrest⟩
  · exact oneLine_append.2 ⟨Text.oneLine_replicate _ (by decide), hrest⟩

namespace Chunk

/-- So is the first line of every piece of a module. -/
theorem oneLine_head (exported : Bool) (d : Direction) (h : t.Printable) :
    OneLine (type exported t).head ∧ OneLine (helper d t).head ∧ OneLine (entry d t).head := by
  have hname := Text.oneLine_of_isIdentifier h.name
  have hkeyword : OneLine (keyword exported) := by cases exported <;> decide
  refine ⟨?_, ?_, ?_⟩
  · simp only [head_type, oneLine_append]
    exact ⟨⟨⟨hkeyword, by decide⟩, hname⟩, by decide⟩
  · have hparameters : OneLine (helperParameters t.name d) := by
      cases d with
      | write => exact oneLine_append.2 ⟨oneLine_append.2 ⟨by decide, hname⟩, by decide⟩
      | read => exact oneLine_append.2 ⟨oneLine_append.2 ⟨by decide, hname⟩, by decide⟩
    simp only [head_helper, oneLine_append]
    exact ⟨⟨⟨by decide, (isPath_helper d (isPath_of_isIdentifier h.name)).oneLine⟩, by decide⟩, hparameters⟩
  · cases d with
    | write => exact oneLine_append.2 ⟨oneLine_append.2 ⟨by decide, hname⟩, by decide⟩
    | read => exact oneLine_append.2 ⟨by decide, hname⟩

theorem oneLine_statementLines (h : t.Printable) (d : Direction) : ∀ l ∈ statementLines c d t, OneLine l := by
  intro l hl
  obtain ⟨st, hst, rfl⟩ := List.mem_map.1 hl
  exact oneLine_append.2 ⟨c.oneLine_indent, oneLine_statement h d hst⟩

theorem oneLine_type (h : t.Printable) (exported : Bool) : ∀ l ∈ (type exported t).lines c, OneLine l := by
  rw [lines, tail_type, List.forall_mem_cons, List.forall_mem_append, List.forall_mem_map]
  exact ⟨(oneLine_head exported .write h).1, fun f hf => oneLine_fieldLine h hf, by decide⟩

theorem oneLine_helper (h : t.Printable) (d : Direction) : ∀ l ∈ (helper d t).lines c, OneLine l := by
  have hreturned : OneLine (returned t d) := by
    cases d with
    | write => exact (by decide : OneLine "return cursor")
    | read => exact oneLine_append.2 ⟨by decide, oneLine_record h⟩
  rw [lines, tail_helper, List.forall_mem_cons, List.forall_mem_append, List.forall_mem_cons]
  exact ⟨(oneLine_head true d h).2.1, oneLine_statementLines h d, oneLine_append.2 ⟨c.oneLine_indent, hreturned⟩,
    by decide⟩

theorem oneLine_entry (h : t.Printable) (d : Direction) : ∀ l ∈ (entry d t).lines c, OneLine l := by
  have hopening : ∀ l ∈ entryOpening d, OneLine l := by cases d <;> decide
  have hclosing : ∀ l ∈ entryClosing c t d, OneLine l := by
    cases d with
    | write =>
      exact (by decide : ∀ l ∈ ["    local out = buffer.create(cursor)",
        "    buffer.copy(out, 0, buff, 0, cursor)", "    return out", "end"], OneLine l)
    | read => exact List.forall_mem_append.2 ⟨oneLine_returnLines h, by decide⟩
  rw [lines, tail_entry, List.forall_mem_cons, List.forall_mem_append, List.forall_mem_append]
  exact ⟨(oneLine_head true d h).2.2, ⟨hopening, oneLine_statementLines h d⟩, hclosing⟩

end Chunk

/-- The texts that the header is given are one line each. -/
structure Config.Legible (c : Config) : Prop where
  author : OneLine c.author
  runtimePath : OneLine c.runtimePath
  outputDir : OneLine c.outputDir

theorem Config.legible_default : Config.Legible {} :=
  ⟨(by decide : OneLine "squishy-compiler"), (by decide : OneLine "script.Parent"), (by decide : OneLine ".")⟩

variable {date : Timestamp} {s : Schema} {exported : Struct}

/-- The header is the one place where texts stand that the schema does not bound: the directory and the author. -/
theorem oneLine_headerLines (hc : c.Legible) (hexports : OneLine s.exports) (h : exported.Printable) :
    ∀ l ∈ headerLines (slotContent c date s exported), OneLine l := by
  have hfile : OneLine (slotContent c date s exported .file) :=
    Path.oneLine_join hc.outputDir (oneLine_append.2 ⟨hexports, by decide⟩)
  have hbrief : OneLine (slotContent c date s exported .brief) :=
    oneLine_append.2 ⟨oneLine_append.2 ⟨by decide, Text.oneLine_of_isIdentifier h.name⟩, by decide⟩
  have hwriter : OneLine (slotContent c date s exported .writerModule) :=
    oneLine_append.2 ⟨hc.runtimePath, by decide⟩
  have hreader : OneLine (slotContent c date s exported .readerModule) :=
    oneLine_append.2 ⟨hc.runtimePath, by decide⟩
  have hauthor : OneLine (slotContent c date s exported .author) := hc.author
  have hdate : OneLine (slotContent c date s exported .date) := date.oneLine_text
  simp only [headerLines, List.forall_mem_cons, oneLine_append, hfile, hbrief, hwriter, hreader, hauthor, hdate,
    and_true]
  decide

/-- Split at its line feeds, the text of a module gives the lines of its chunks. -/
theorem splitAt_fill (hc : c.Legible) (hexported : s.exported? = some exported) (hexports : OneLine s.exports)
    (h : exported.Printable) (hts : ∀ t ∈ structsOf s s.helperOrder, t.Printable) :
    Text.splitAt '\n' (Template.codecModule.fill (slotContent c date s exported)) =
      (moduleChunks c date s exported).flatMap (Chunk.lines c) ++ [""] := by
  rw [fill_eq_written hexported h hts]
  apply Text.splitAt_written
  rw [List.forall_mem_flatMap]
  apply forall_mem_moduleChunks
  · intro l hl
    rw [Chunk.lines_line, List.forall_mem_singleton]
    rcases List.mem_append.1 hl with hl | hl
    · exact oneLine_headerLines hc hexports h l hl
    · exact (by decide : ∀ l ∈ ["", "return scheme"], OneLine l) l hl
  · exact fun t ht => Chunk.oneLine_type (hts t ht) false
  · exact fun d t ht => Chunk.oneLine_helper (hts t ht) d
  · exact Chunk.oneLine_type h true
  · exact Chunk.oneLine_entry h

end Luau

end BufferSchema
