import BufferSchema.Proofs.Luau.Chunks

/-!
# What the lines of a module declare

A line opens a local function or a type if it starts with the words for it. The first line of a helper opens a
function and that of a type opens a type. No other line opens anything, whatever the fields of the structs are
called and however far lines are indented.
-/

namespace BufferSchema.Luau

open Text (IsIdentifier isNamePart)

/-- The line opens the local function called `name`. -/
def Defines (name line : String) : Prop := ("local function " ++ name ++ "(").toList <+: line.toList

/-- The line opens the type called `name`, which may be exported. -/
def Declares (name line : String) : Prop :=
  ("type " ++ name ++ " = ").toList <+: line.toList ∨ ("export type " ++ name ++ " = ").toList <+: line.toList

instance (name line : String) : Decidable (Defines name line) :=
  inferInstanceAs (Decidable (("local function " ++ name ++ "(").toList <+: line.toList))

instance (name line : String) : Decidable (Declares name line) :=
  inferInstanceAs (Decidable (("type " ++ name ++ " = ").toList <+: line.toList ∨
    ("export type " ++ name ++ " = ").toList <+: line.toList))

/-- The line opens no function and no type. -/
def Silent (line : String) : Prop :=
  ∀ name, IsIdentifier name.toList → ¬ Defines name line ∧ ¬ Declares name line

/-- The words that open a function or a type. -/
def openings : List String := ["local function ", "type ", "export type "]

variable {line rest : String}

theorem silent_of_not_isPrefix (h : ∀ p ∈ openings, ¬ p.toList <+: line.toList) : Silent line := by
  have hcut : ∀ {p q : String}, (p ++ q).toList <+: line.toList → p.toList <+: line.toList := by
    intro p q hpq
    rw [String.toList_append] at hpq
    exact (List.prefix_append _ _).trans hpq
  intro name _
  constructor
  · intro hdef
    rw [Defines, String.append_assoc] at hdef
    exact h "local function " (by decide) (hcut hdef)
  · rintro (hdecl | hdecl)
    · rw [String.append_assoc] at hdecl
      exact h "type " (by decide) (hcut hdecl)
    · rw [String.append_assoc] at hdecl
      exact h "export type " (by decide) (hcut hdecl)

theorem silent_of_mem {ls : List String} (h : ∀ l ∈ ls, ∀ p ∈ openings, ¬ p.toList <+: l.toList) :
    ∀ l ∈ ls, Silent l :=
  fun l hl => silent_of_not_isPrefix (h l hl)

/-- How a line goes on does not matter, once it has started otherwise. -/
theorem silent_append {start : String}
    (h : ∀ p ∈ openings, ¬ p.toList <+: start.toList ∧ ¬ start.toList <+: p.toList) (rest : String) :
    Silent (start ++ rest) := by
  refine silent_of_not_isPrefix fun p hp hfront => ?_
  rw [String.toList_append] at hfront
  rcases List.prefix_or_prefix_of_prefix hfront (List.prefix_append start.toList rest.toList) with hcase | hcase
  · exact (h p hp).1 hcase
  · exact (h p hp).2 hcase

/-- A line stays silent when it is indented. -/
theorem Silent.indent (h : Silent line) (n : Nat) : Silent (String.ofList (List.replicate n ' ') ++ line) := by
  cases n with
  | zero => simpa using h
  | succ n =>
    have hspace : String.ofList (List.replicate (n + 1) ' ') = " " ++ String.ofList (List.replicate n ' ') := by
      apply String.toList_inj.1
      simp [List.replicate_succ]
    rw [hspace, String.append_assoc]
    exact silent_append (by decide) _

/-- Behind the first word of an opening and a blank there is another word. -/
theorem not_isPrefix_of_mark {w v r cs : List Char} {y x : Char} (hw : ∀ c ∈ w, isNamePart c = true)
    (hv : ∀ c ∈ v, isNamePart c = true) (hy : isNamePart y = true) (hx : isNamePart x = false) :
    ¬ w ++ ' ' :: y :: r <+: v ++ ' ' :: x :: cs := by
  intro h
  obtain ⟨-, h⟩ := Text.word_eq_of_isPrefix hw hv (by decide) (by simp; decide) h
  rw [List.cons_prefix_cons, List.cons_prefix_cons] at h
  rw [← h.2.1, hy] at hx
  cases hx

/-- A line that starts with a word, a blank and a mark opens nothing. -/
theorem silent_of_mark {v : List Char} {x : Char} (hv : ∀ c ∈ v, isNamePart c = true)
    (hx : isNamePart x = false) (h : v ++ [' ', x] <+: line.toList) : Silent line := by
  obtain ⟨cs, hcs⟩ := h
  have hline : line.toList = v ++ ' ' :: x :: cs := by
    rw [← hcs, List.append_assoc]
    rfl
  intro name hname
  obtain ⟨y, ys, hys⟩ := List.exists_cons_of_ne_nil hname.ne_nil
  have hy : isNamePart y = true := hname.isNamePart y (hys ▸ List.mem_cons_self)
  constructor
  · rw [Defines, hline, String.toList_append, String.toList_append, List.append_assoc]
    exact not_isPrefix_of_mark (w := "local".toList) (List.all_eq_true.1 (by decide)) hv (by decide) hx
  · rintro (h | h)
    · rw [hline, String.toList_append, String.toList_append, hys, List.append_assoc] at h
      exact not_isPrefix_of_mark (w := "type".toList) (List.all_eq_true.1 (by decide)) hv hy hx h
    · rw [hline, String.toList_append, String.toList_append, List.append_assoc] at h
      exact not_isPrefix_of_mark (w := "export".toList) (List.all_eq_true.1 (by decide)) hv (by decide) hx h

/-! The lines behind the first one of a chunk. -/

variable {c : Config} {t : Struct}

theorem silent_fieldLine (h : t.Printable) {f : Field} (hf : f ∈ t.fields) : Silent (fieldLine c.indent f) := by
  have hmark : ∀ rest, Silent (c.indent ++ (f.name ++ (" : " ++ rest))) := by
    intro rest
    refine Silent.indent (silent_of_mark (x := ':') (h.fields f hf).isNamePart (by decide) ?_) c.indentSpaces
    exact ⟨' ' :: rest.toList, by simp⟩
  unfold fieldLine
  split
  · simp only [String.append_assoc]
    exact hmark _
  · simp only [String.append_assoc]
    exact hmark _

theorem silent_binding {s : Step} (h : IsIdentifier s.field.toList) (n : Nat) (rest : String) :
    Silent (String.ofList (List.replicate n ' ') ++ (s.binding ++ rest)) := by
  refine Silent.indent (silent_of_mark (x := '=') h.isNamePart (by decide) ?_) n
  exact ⟨' ' :: (s.target ++ rest).toList, by simp [Step.toList_binding]⟩

theorem silent_declare {names : List String} (hne : names ≠ []) (h : ∀ v ∈ names, IsIdentifier v.toList) :
    Silent (Statement.declare names).text := by
  obtain ⟨v, vs, rfl⟩ := List.exists_cons_of_ne_nil hne
  obtain ⟨cs, hcs, hmark⟩ : ∃ cs, (", ".intercalate (v :: vs)).toList = v.toList ++ cs ∧
      ∀ x, cs.head? = some x → x = ',' := by
    cases vs with
    | nil => exact ⟨[], by simp, by simp⟩
    | cons w ws =>
      refine ⟨", ".toList ++ (", ".intercalate (w :: ws)).toList, ?_, fun x hx => (Option.some.inj hx).symm⟩
      rw [String.intercalate_cons_cons, String.toList_append, String.toList_append, List.append_assoc]
  have hline : (Statement.declare (v :: vs)).text.toList = "local ".toList ++ (v.toList ++ cs) := by
    rw [Statement.text, String.toList_append, hcs]
  intro name _
  constructor
  · intro hdef
    have hopen : ("local function " ++ name ++ "(").toList =
        "local ".toList ++ ("function".toList ++ ' ' :: (name.toList ++ ['('])) := by
      rw [String.toList_append, String.toList_append]
      rfl
    rw [Defines, hline, hopen, List.prefix_append_right_inj] at hdef
    have hcomma : ∀ x, cs.head? = some x → isNamePart x = false := by
      intro x hx
      rw [hmark x hx]
      decide
    have hword : ∀ x ∈ "function".toList, isNamePart x = true := List.all_eq_true.1 (by decide)
    obtain ⟨-, y, hy⟩ := Text.word_eq_of_isPrefix hword (h v List.mem_cons_self).isNamePart (by decide) hcomma hdef
    exact absurd (hmark ' ' (by rw [← hy]; rfl)) (by decide)
  · rw [Declares, hline]
    simp [List.cons_prefix_cons]

theorem silent_statement (h : t.Printable) (d : Direction) {st : Statement}
    (hst : st ∈ (Body.ofStruct t).statements d) : Silent st.text := by
  have hcursor : ∀ rest, Silent ("cursor" ++ rest) := silent_append (by decide)
  cases d with
  | write =>
    obtain ⟨s, -, rfl⟩ := List.mem_map.1 hst
    simp only [Step.write, Statement.text, String.intercalate_singleton, String.append_assoc]
    exact hcursor _
  | read =>
    rcases List.mem_cons.1 hst with rfl | hst
    · refine silent_declare (by simpa using Body.steps_ne_nil h.fields_ne_nil) fun v hv => ?_
      obtain ⟨s, hs, rfl⟩ := List.mem_map.1 hv
      exact (Body.isIdentifier_of_mem_ofStruct h.fields hs).2
    · obtain ⟨s, -, rfl⟩ := List.mem_map.1 hst
      simp only [Step.read, Statement.text, String.intercalate_cons_cons, String.append_assoc]
      exact hcursor _

theorem silent_statementLines (h : t.Printable) (d : Direction) : ∀ l ∈ Chunk.statementLines c d t, Silent l := by
  intro l hl
  obtain ⟨st, hst, rfl⟩ := List.mem_map.1 hl
  exact (silent_statement h d hst).indent c.indentSpaces

theorem silent_returnLines (h : t.Printable) : ∀ l ∈ Chunk.returnLines c t, Silent l := by
  intro l hl
  have hne : (Body.ofStruct t).steps.map Step.binding ≠ [] := by simpa using Body.steps_ne_nil h.fields_ne_nil
  obtain ⟨entry, hentry, ending, -, rfl | rfl⟩ := exists_of_mem_recordLines hne hl
  · rw [String.append_assoc]
    exact (silent_append (by decide) _).indent c.indentSpaces
  · obtain ⟨s, hs, rfl⟩ := List.mem_map.1 hentry
    exact silent_binding (Body.isIdentifier_of_mem_ofStruct h.fields hs).1 c.returnIndent ending

/-! Chunks. -/

theorem isIdentifier_helper (d : Direction) {name : String} (h : IsIdentifier name.toList) :
    IsIdentifier (d.helper name).toList := by
  rw [d.helper_eq, String.toList_append, String.toList_append]
  cases d with
  | write => exact IsIdentifier.append (by decide) h.isNamePart
  | read => exact IsIdentifier.append (by decide) h.isNamePart

namespace Chunk

/-- The functions that a chunk defines as local ones. -/
def defines : Chunk → List String
  | helper d t => [d.helper t.name]
  | _ => []

/-- The types that a chunk declares. -/
def declares : Chunk → List String
  | type _ t => [t.name]
  | _ => []

/-- A line of the frame that opens nothing, or a struct whose names can be written as they are. -/
def Printable : Chunk → Prop
  | .line text => Silent text
  | .type _ t | .helper _ t | .entry _ t => t.Printable

variable {name : String} {ch : Chunk} {chs : List Chunk}

theorem defines_head_helper (hname : IsIdentifier name.toList) (h : t.Printable) (d : Direction) :
    Defines name (helper d t).head ↔ name = d.helper t.name := by
  have hhead : (helper d t).head.toList = "local function ".toList ++
      ((d.helper t.name).toList ++ '(' :: (helperParameters t.name d).toList) := by
    rw [head_helper]
    simp
  have hopen : ("local function " ++ name ++ "(").toList =
      "local function ".toList ++ (name.toList ++ '(' :: []) := by
    simp
  rw [Defines, hhead, hopen, List.prefix_append_right_inj]
  constructor
  · intro hfront
    have hhelper := (isIdentifier_helper d h.name).isNamePart
    have hmark : ∀ x, ('(' :: (helperParameters t.name d).toList).head? = some x → isNamePart x = false := by
      intro x hx
      obtain rfl := Option.some.inj hx
      decide
    exact String.toList_inj.1 (Text.word_eq_of_isPrefix hname.isNamePart hhelper (by decide) hmark hfront).1
  · rintro rfl
    rw [List.prefix_append_right_inj, List.cons_prefix_cons]
    exact ⟨rfl, List.nil_prefix⟩

theorem not_declares_head_helper (d : Direction) : ¬ Declares name (helper d t).head := by
  simp [Declares, head_helper, List.cons_prefix_cons]

theorem declares_head_type (hname : IsIdentifier name.toList) (h : t.Printable) (exported : Bool) :
    Declares name (type exported t).head ↔ name = t.name := by
  have hword : name.toList ++ ' ' :: ['=', ' '] <+: t.name.toList ++ ' ' :: ['=', ' ', '\x7b'] → name = t.name :=
    fun hfront => String.toList_inj.1 <|
      (Text.word_eq_of_isPrefix hname.isNamePart h.name.isNamePart (by decide) (by simp; decide) hfront).1
  rw [Declares, head_type]
  -- each of the two keywords rules the other one out by its first letter
  cases exported with
  | false =>
    constructor
    · rintro (hfront | hfront)
      · exact hword (by simpa [keyword] using hfront)
      · simp [keyword, List.cons_prefix_cons] at hfront
    · rintro rfl
      exact .inl (by simp [keyword])
  | true =>
    constructor
    · rintro (hfront | hfront)
      · simp [keyword, List.cons_prefix_cons] at hfront
      · exact hword (by simpa [keyword] using hfront)
    · rintro rfl
      exact .inr (by simp [keyword])

theorem not_defines_head_type (exported : Bool) : ¬ Defines name (type exported t).head := by
  cases exported <;> simp [Defines, head_type, keyword, List.cons_prefix_cons]

theorem silent_head_entry (d : Direction) : Silent (entry d t).head := by
  cases d with
  | write =>
    have hopen : (entry .write t).head = "function scheme.write(input : " ++ (t.name ++ ") : buffer") :=
      String.append_assoc ..
    rw [hopen]
    exact silent_append (by decide) _
  | read => exact silent_append (by decide) _

theorem silent_tail (h : ch.Printable) : ∀ l ∈ ch.tail c, Silent l := by
  have hend : Silent "end" := silent_of_not_isPrefix (by decide)
  cases ch with
  | line text => exact fun l hl => absurd hl List.not_mem_nil
  | type exported t =>
    intro l hl
    rw [tail_type, List.mem_append, List.mem_map, List.mem_singleton] at hl
    rcases hl with ⟨f, hf, rfl⟩ | rfl
    · exact silent_fieldLine h hf
    · exact silent_of_not_isPrefix (by decide)
  | helper d t =>
    intro l hl
    rw [tail_helper, List.mem_append, List.mem_cons, List.mem_singleton] at hl
    rcases hl with hl | rfl | rfl
    · exact silent_statementLines h d l hl
    · refine Silent.indent ?_ c.indentSpaces
      cases d with
      | write => exact silent_of_not_isPrefix (by decide : ∀ p ∈ openings, ¬ p.toList <+: "return cursor".toList)
      | read => exact silent_append (by decide) _
    · exact hend
  | entry d t =>
    intro l hl
    rw [tail_entry, List.mem_append, List.mem_append] at hl
    rcases hl with (hl | hl) | hl
    · cases d with
      | write => exact silent_of_mem (by decide) l hl
      | read => exact silent_of_mem (by decide) l hl
    · exact silent_statementLines h d l hl
    · cases d with
      | write =>
        change l ∈ ["    local out = buffer.create(cursor)", "    buffer.copy(out, 0, buff, 0, cursor)",
          "    return out", "end"] at hl
        exact silent_of_mem (by decide) l hl
      | read =>
        unfold entryClosing at hl
        rcases List.mem_append.1 hl with hl | hl
        · exact silent_returnLines h l hl
        · exact List.mem_singleton.1 hl ▸ hend

theorem defines_head_iff (h : ch.Printable) (hname : IsIdentifier name.toList) :
    Defines name ch.head ↔ name ∈ ch.defines := by
  cases ch with
  | line text => exact iff_of_false (h name hname).1 List.not_mem_nil
  | type exported t => exact iff_of_false (not_defines_head_type exported) List.not_mem_nil
  | helper d t => exact (defines_head_helper hname h d).trans List.mem_singleton.symm
  | entry d t => exact iff_of_false (silent_head_entry d name hname).1 List.not_mem_nil

theorem declares_head_iff (h : ch.Printable) (hname : IsIdentifier name.toList) :
    Declares name ch.head ↔ name ∈ ch.declares := by
  cases ch with
  | line text => exact iff_of_false (h name hname).2 List.not_mem_nil
  | type exported t => exact (declares_head_type hname h exported).trans List.mem_singleton.symm
  | helper d t => exact iff_of_false (not_declares_head_helper d) List.not_mem_nil
  | entry d t => exact iff_of_false (silent_head_entry d name hname).2 List.not_mem_nil

theorem nodup_defines (ch : Chunk) : ch.defines.Nodup := by
  cases ch <;> simp [defines]

theorem nodup_declares (ch : Chunk) : ch.declares.Nodup := by
  cases ch <;> simp [declares]

/-- Lines that only the first line of a chunk can be among are counted by the names that the chunk gives. -/
theorem countP_lines {P : String → Prop} [DecidablePred P] {names : List String} (hnodup : names.Nodup)
    (hhead : P ch.head ↔ name ∈ names) (htail : ∀ l ∈ ch.tail c, ¬ P l) :
    (ch.lines c).countP (P ·) = names.count name := by
  have hnone : (ch.tail c).countP (P ·) = 0 := by
    rw [List.countP_eq_zero]
    simpa using htail
  rw [lines, List.countP_cons, hnone, hnodup.count]
  simp only [decide_eq_true_eq, hhead, Nat.zero_add]

theorem countP_flatMap {P : String → Prop} [DecidablePred P] {names : Chunk → List String}
    (h : ∀ ch ∈ chs, (ch.lines c).countP (P ·) = (names ch).count name) :
    (chs.flatMap (lines c)).countP (P ·) = (chs.flatMap names).count name := by
  induction chs with
  | nil => rfl
  | cons ch chs ih =>
    rw [List.flatMap_cons, List.countP_append, h ch List.mem_cons_self,
      ih fun x hx => h x (List.mem_cons_of_mem ch hx), List.flatMap_cons, List.count_append]

/-- The lines that open a function are counted by what the chunks define. -/
theorem countP_defines (h : ∀ ch ∈ chs, ch.Printable) (hname : IsIdentifier name.toList) :
    (chs.flatMap (lines c)).countP (Defines name ·) = (chs.flatMap defines).count name :=
  countP_flatMap fun ch hch => countP_lines ch.nodup_defines (defines_head_iff (h ch hch) hname)
    fun l hl => (silent_tail (h ch hch) l hl name hname).1

/-- The lines that open a type are counted by what the chunks declare. -/
theorem countP_declares (h : ∀ ch ∈ chs, ch.Printable) (hname : IsIdentifier name.toList) :
    (chs.flatMap (lines c)).countP (Declares name ·) = (chs.flatMap declares).count name :=
  countP_flatMap fun ch hch => countP_lines ch.nodup_declares (declares_head_iff (h ch hch) hname)
    fun l hl => (silent_tail (h ch hch) l hl name hname).2

end Chunk

end BufferSchema.Luau
