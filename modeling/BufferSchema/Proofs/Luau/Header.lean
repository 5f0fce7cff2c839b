import BufferSchema.Proofs.FileTree
import BufferSchema.Proofs.Luau.Assembly
import BufferSchema.Proofs.Luau.TypeNames

/-!
# The comment at the head of a module

A module starts with a comment in brackets, which ends at the first `]]` behind its start, wherever that comes from.
The frame closes the comment on a line of its own. In front of that line stand the path of the module, its author, the
date and the name of the exported struct. The last two never have a bracket in them, and of the path only what the
directory brings with it can, so the comment ends where it should unless the directory or the author ends it.
-/

namespace BufferSchema

open Schema.Parser (bind_eq_ok_iff)
open Text (written)

namespace Text

/-! Texts that hold a word. -/

section

variable {w as bs : List Char} {c : Char}

theorem prefix_append_cons_iff (h : c ∉ w) : w <+: as ++ c :: bs ↔ w <+: as := by
  induction as generalizing w with
  | nil =>
    cases w with
    | nil => simp
    | cons d w =>
      rw [List.mem_cons, not_or] at h
      simp [List.cons_prefix_cons, Ne.symm h.1]
  | cons a as ih =>
    cases w with
    | nil => simp
    | cons d w =>
      rw [List.mem_cons, not_or] at h
      rw [List.cons_append, List.cons_prefix_cons, List.cons_prefix_cons, ih h.2]

/-- A word does not reach over a character that is not in it. -/
theorem infix_append_cons_iff (h : c ∉ w) : w <:+: as ++ c :: bs ↔ w <:+: as ∨ w <:+: bs := by
  induction as with
  | nil =>
    rw [List.nil_append, List.infix_cons_iff, ← List.nil_append (c :: bs), prefix_append_cons_iff h, List.prefix_nil,
      List.infix_nil]
  | cons a as ih =>
    rw [List.cons_append, List.infix_cons_iff, List.infix_cons_iff, ← List.cons_append, prefix_append_cons_iff h, ih,
      or_assoc]

theorem toList_written_cons (l : String) (ls : List String) :
    (written (l :: ls)).toList = l.toList ++ '\n' :: (written ls).toList := by
  rw [written_cons, String.toList_append, String.toList_append]
  rfl

/-- A word without a line end stands on one of the lines. -/
theorem infix_written_iff (hne : w ≠ []) (h : '\n' ∉ w) {ls : List String} :
    w <:+: (written ls).toList ↔ ∃ l ∈ ls, w <:+: l.toList := by
  induction ls with
  | nil => simpa using hne
  | cons l ls ih => rw [toList_written_cons, infix_append_cons_iff h, ih, List.exists_mem_cons_iff]

/-- It does not reach from the lines into what stands behind them. -/
theorem infix_written_append_iff (hne : w ≠ []) (h : '\n' ∉ w) {ls : List String} :
    w <:+: (written ls).toList ++ bs ↔ w <:+: (written ls).toList ∨ w <:+: bs := by
  induction ls with
  | nil => simp [hne]
  | cons l ls ih =>
    rw [toList_written_cons, List.append_assoc, List.cons_append, infix_append_cons_iff h, infix_append_cons_iff h, ih,
      or_assoc]

end

end Text

/-- What stands in front of the first `]]` and what stands behind it, which is where a comment in brackets ends. -/
def Luau.closeComment? : List Char → Option (List Char × List Char)
  | [] => none
  | c :: cs =>
    if "]]".toList <+: c :: cs then some ([], cs.tail)
    else (closeComment? cs).map fun (inside, behind) => (c :: inside, behind)

namespace Luau

/-- A `]]` closes the comment unless there is one in front of it, or one that it starts in the middle of. -/
theorem closeComment?_eq_iff {as bs : List Char} :
    closeComment? (as ++ ']' :: ']' :: bs) = some (as, bs) ↔ ¬ "]]".toList <:+: as ++ [']'] := by
  induction as with
  | nil => simp [closeComment?, List.infix_cons_iff]
  | cons a as ih =>
    have hstarts : "]]".toList <+: a :: (as ++ ']' :: ']' :: bs) ↔ "]]".toList <+: a :: (as ++ [']']) := by
      cases as <;> simp [List.cons_prefix_cons]
    rw [List.cons_append, List.cons_append, closeComment?, List.infix_cons_iff, not_or, ← hstarts, ← ih]
    by_cases hfirst : "]]".toList <+: a :: (as ++ ']' :: ']' :: bs)
    · rw [if_pos hfirst]
      exact iff_of_false (by simp) fun h => h.1 hfirst
    · rw [if_neg hfirst, and_iff_right hfirst]
      simp [Option.map_eq_some_iff]

/-! The header. -/

theorem not_infix_of_not_mem {x : String} (h : ']' ∉ x.toList) : ¬ "]]".toList <:+: x.toList :=
  fun inside => h (inside.subset (by decide))

theorem infix_append_chars_iff {as bs : List Char} (h : ']' ∉ as) :
    "]]".toList <:+: as ++ bs ↔ "]]".toList <:+: bs := by
  induction as with
  | nil => rfl
  | cons a as ih =>
    rw [List.mem_cons, not_or] at h
    have hfirst : ¬ "]]".toList <+: a :: (as ++ bs) := fun hstarts => h.1 (List.cons_prefix_cons.1 hstarts).1
    rw [List.cons_append, List.infix_cons_iff, or_iff_right hfirst, ih h.2]

/-- A text without brackets makes no difference in front of another one. -/
theorem infix_append_iff {x y : String} (h : ']' ∉ x.toList) :
    "]]".toList <:+: (x ++ y).toList ↔ "]]".toList <:+: y.toList := by
  rw [String.toList_append]
  exact infix_append_chars_iff h

/-- Nor does it behind another one, since the end of a comment is the same from both sides. -/
theorem infix_append_right_iff {x y : String} (h : ']' ∉ y.toList) :
    "]]".toList <:+: (x ++ y).toList ↔ "]]".toList <:+: x.toList := by
  have hsame : "]]".toList = "]]".toList.reverse := by decide
  rw [String.toList_append, ← List.reverse_infix, List.reverse_append, ← hsame,
    infix_append_chars_iff (by simpa using h), ← List.reverse_infix, List.reverse_reverse, ← hsame]

namespace Template

/-- The rows of the frame in front of the one that closes the comment. -/
def headerRows : List Template := codecRows.takeWhile (· ≠ [.text "]]"])

/-- The rows of the frame behind it. -/
def codeRows : List Template := (codecRows.dropWhile (· ≠ [.text "]]"])).tail

variable (content : Slot → String)

theorem fill_codecModule_eq_append : codecModule.fill content =
    written (headerRows.map (fill content)) ++ ("]]" ++ ("\n" ++ written (codeRows.map (fill content)))) := by
  have hrows : codecRows = headerRows ++ [.text "]]"] :: codeRows := by decide +kernel
  rw [fill_codecModule_eq_written, hrows, List.map_append, Text.written_append, List.map_cons, Text.written_cons,
    fill_text, fill_nil, String.append_empty]

/-- Only what is put into the slots of the header can have the end of a comment in it. -/
theorem infix_headerRows_iff : "]]".toList <:+: (written (headerRows.map (fill content))).toList ↔
    ∃ slot ∈ [Slot.file, .author, .date, .brief], "]]".toList <:+: (content slot).toList := by
  have hrows : headerRows = codecRows.take 11 := by decide +kernel
  rw [Text.infix_written_iff (by decide) (by decide), hrows]
  simp (disch := decide) only [codecRows, List.take_succ_cons, List.take_zero, List.map_cons, List.map_nil, fill_text,
    fill_slot, fill_nil, String.append_empty, List.exists_mem_cons_iff, infix_append_iff, not_infix_of_not_mem,
    List.not_mem_nil, false_and, exists_false, or_false, false_or]

end Template

/-- The name of a file has no bracket in it, nor has the slash in front of it. -/
theorem infix_join_iff {dir name : String} (hname : ']' ∉ name.toList) (hrelative : Path.isAbsolute name = false) :
    "]]".toList <:+: (Path.join dir name).toList ↔ "]]".toList <:+: dir.toList := by
  unfold Path.join
  rw [if_neg (by simp [hrelative])]
  split
  · exact infix_append_right_iff hname
  · rw [infix_append_right_iff hname, infix_append_right_iff (by decide)]

variable {c : Config} {date : Timestamp} {s : Schema} {exported : Struct}

theorem infix_slotContent_iff (hexports : Name.Faultless s.exports) (hname : exported.name = s.exports) :
    (∃ slot ∈ [Slot.file, .author, .date, .brief], "]]".toList <:+: (slotContent c date s exported slot).toList) ↔
      "]]".toList <:+: c.outputDir.toList ∨ "]]".toList <:+: c.author.toList := by
  have hdate : slotContent c date s exported .date = date.text := rfl
  have htext : ']' ∉ date.text.toList := by
    apply date.not_mem_text <;> decide
  have hbrief : slotContent c date s exported .brief =
      "encodes and decodes " ++ exported.name ++ " to and from a buffer" := rfl
  have hid : ']' ∉ exported.name.toList := by
    rw [hname]
    exact fun hmem => absurd (hexports.identifier.isNamePart _ hmem) (by decide)
  have hsentence : ']' ∉ ("encodes and decodes " ++ exported.name ++ " to and from a buffer").toList := by
    simp [hid]
  have hpath : slotContent c date s exported .file = Path.join c.outputDir (fileName s) := rfl
  have hauthor : slotContent c date s exported .author = c.author := rfl
  have hslash : '/' ∉ (fileName s).toList := not_mem_fileName hexports (by decide) (by decide)
  have hbracket : ']' ∉ (fileName s).toList := not_mem_fileName hexports (by decide) (by decide)
  simp only [List.exists_mem_cons_iff, hpath, hauthor, hdate, hbrief, List.not_mem_nil, false_and, exists_false,
    infix_join_iff hbracket (Path.isAbsolute_eq_false hslash), not_infix_of_not_mem htext,
    not_infix_of_not_mem hsentence, or_false]

theorem result_render (h : s.exported? = some exported) :
    (render c date s).result = .ok (Template.codecModule.fill (slotContent c date s exported)) := by
  rw [render, h]

theorem exists_exported_of_ofText {source : String} (h : Schema.ofText source = .ok s) :
    ∃ exported, s.exported? = some exported ∧ exported.name = s.exports := by
  obtain ⟨tokens, -, hparse⟩ := bind_eq_ok_iff.1 h
  have hsound := Schema.sound_of_parse hparse
  obtain ⟨exported, hexported⟩ := Table.exists_find?_of_mem hsound.exported
  exact ⟨exported, hexported, hsound.indexed.name_of_find? hexported⟩

/-- **The comment ends where the frame ends it, unless the directory or the author does.** The module of an accepted
schema is the header, the `]]` of the frame, and the code. This `]]` is the first one exactly if there is none in the
text of the output directory and none in that of the author; whatever else stands in the header has none, and no text
makes one together with what stands around it. -/
theorem comment_ends_at_frame_iff {source : String} (h : Schema.ofText source = .ok s) (c : Config) (date : Timestamp) :
    ∃ exported, s.exported? = some exported ∧
      let content := slotContent c date s exported
      let header := written (Template.headerRows.map (Template.fill content))
      let code := "\n" ++ written (Template.codeRows.map (Template.fill content))
      (render c date s).result = .ok (header ++ "]]" ++ code) ∧
      (closeComment? (header ++ "]]" ++ code).toList = some (header.toList, code.toList) ↔
        ¬ "]]".toList <:+: c.outputDir.toList ∧ ¬ "]]".toList <:+: c.author.toList) := by
  obtain ⟨exported, hexported, hname⟩ := exists_exported_of_ofText h
  refine ⟨exported, hexported, ?_⟩
  intro content header code
  have hend : "]]".toList <:+: header.toList ++ [']'] ↔ "]]".toList <:+: header.toList := by
    have hsingle : ¬ "]]".toList <:+: [']'] := by decide
    rw [Text.infix_written_append_iff (by decide) (by decide), or_iff_left hsingle]
  refine ⟨?_, ?_⟩
  · rw [result_render hexported, Template.fill_codecModule_eq_append, String.append_assoc]
  · have hchars : (header ++ "]]" ++ code).toList = header.toList ++ ']' :: ']' :: code.toList := by simp
    rw [hchars, closeComment?_eq_iff, hend, Template.infix_headerRows_iff,
      infix_slotContent_iff (Schema.faultless_exports h) hname, not_or]

theorem exists_accepted_A : ∃ s, Schema.ofText "struct A \x7b field v u8 \x7d exports A" = .ok s ∧ s.exports = "A" := by
  obtain ⟨s, htext, houtline, -⟩ := Schema.exists_accepted_sole (by decide : Outline.Nameable "A") (by decide)
  have hsource : String.ofList (Lexeme.spaced (Schema.soleWords "A")) = "struct A \x7b field v u8 \x7d exports A" := by
    decide
  exact ⟨s, hsource ▸ htext, congrArg Outline.exports houtline⟩

/-- Single brackets do no harm, not even at the ends of a text. -/
theorem comment_ends_at_frame_with_brackets : ∃ s exported,
    Schema.ofText "struct A \x7b field v u8 \x7d exports A" = .ok s ∧ s.exported? = some exported ∧
      let c : Config := { outputDir := "]a[]", author := "][]" }
      let content := slotContent c ⟨2025, 3, 14, 9, 26, 53⟩ s exported
      let header := written (Template.headerRows.map (Template.fill content))
      let code := "\n" ++ written (Template.codeRows.map (Template.fill content))
      (render c ⟨2025, 3, 14, 9, 26, 53⟩ s).result = .ok (header ++ "]]" ++ code) ∧
        closeComment? (header ++ "]]" ++ code).toList = some (header.toList, code.toList) := by
  obtain ⟨s, htext, -⟩ := exists_accepted_A
  obtain ⟨exported, hexported, hrender, hends⟩ :=
    comment_ends_at_frame_iff htext { outputDir := "]a[]", author := "][]" } ⟨2025, 3, 14, 9, 26, 53⟩
  refine ⟨s, exported, htext, hexported, hrender, hends.2 ⟨?_, ?_⟩⟩ <;> decide

/-- A directory that ends the comment: what stands behind the brackets in its name is code. -/
theorem directory_ends_comment : ∃ s exported text inside behind,
    Schema.ofText "struct A \x7b field v u8 \x7d exports A" = .ok s ∧ s.exported? = some exported ∧
      let c : Config := { outputDir := "x]] error() --[[" }
      let content := slotContent c ⟨2025, 3, 14, 9, 26, 53⟩ s exported
      (render c ⟨2025, 3, 14, 9, 26, 53⟩ s).result = .ok text ∧ closeComment? text.toList = some (inside, behind) ∧
        inside ≠ (written (Template.headerRows.map (Template.fill content))).toList ∧
        " error() --[[/A.luau\n    * @author   : squishy-compiler\n".toList <+: behind := by
  obtain ⟨s, htext, hexports⟩ := exists_accepted_A
  obtain ⟨exported, hexported, -⟩ := exists_exported_of_ofText htext
  set c : Config := { outputDir := "x]] error() --[[" }
  set content := slotContent c ⟨2025, 3, 14, 9, 26, 53⟩ s exported
  set stars := "    ****************************************************************************\n"
  set inside := "--!strict\n--[[\n" ++ stars ++ "    * @file     : x"
  set injected := " error() --[[/A.luau\n    * @author   : squishy-compiler\n"
  have hfile : content .file = "x]] error() --[[/A.luau" := by
    have hpath : content .file = Path.join c.outputDir (fileName s) := rfl
    rw [hpath, fileName, hexports]
    decide +kernel
  have hcloses : "]]".toList <:+: (content .file).toList := by
    rw [hfile]
    exact ⟨"x".toList, " error() --[[/A.luau".toList, by decide⟩
  have hauthor : content .author = "squishy-compiler" := rfl
  have hfree : ']' ∉ inside.toList := by decide +kernel
  have hlead : Template.fill content (Template.codecModule.take 9) = inside ++ ("]]" ++ injected) := by
    simp [Template.codecModule, hfile, hauthor, inside, injected, stars]
  obtain ⟨rest, hchars⟩ : ∃ rest, (Template.codecModule.fill content).toList =
      inside.toList ++ ']' :: ']' :: (injected.toList ++ rest) := by
    refine ⟨(Template.fill content (Template.codecModule.drop 9)).toList, ?_⟩
    rw [← List.take_append_drop 9 Template.codecModule, Template.fill_append, hlead]
    simp
  refine ⟨s, exported, _, inside.toList, injected.toList ++ rest, htext, hexported, result_render hexported, ?_, ?_,
    List.prefix_append _ _⟩
  · rw [hchars, closeComment?_eq_iff, infix_append_chars_iff hfree]
    decide
  · intro hsame
    refine not_infix_of_not_mem hfree ?_
    rw [hsame, Template.infix_headerRows_iff]
    exact ⟨.file, List.mem_cons_self, hcloses⟩

end Luau

end BufferSchema
