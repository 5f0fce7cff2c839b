import BufferSchema.Proofs.Luau.Contents

/-!
# Modules are well scoped

What a function of a module uses is there and stands in front of it. The helpers stand in the order of the
structs, each behind those it uses, and the exported functions come last. Every helper and every type is there
once, and none of a struct that nothing refers to.
-/

namespace BufferSchema

open Schema.Parser
open Text (IsIdentifier OneLine)

namespace Luau

variable {c : Config} {date : Timestamp} {s : Schema} {exported : Struct} {name : String} {t : Struct}

/-! What stands in front of a function. -/

/-- In the list, `a` stands before the first `x`. -/
def Ahead {α : Type} (l : List α) (a x : α) : Prop := ∃ front rest, l = front ++ rest ∧ a ∈ front ∧ x ∉ front

namespace Ahead

variable {α β : Type} {l : List α} {a x : α}

theorem append (h : Ahead l a x) (m : List α) : Ahead (l ++ m) a x := by
  obtain ⟨front, rest, rfl, ha, hx⟩ := h
  exact ⟨front, rest ++ m, List.append_assoc .., ha, hx⟩

theorem prepend (h : Ahead l a x) {m : List α} (hm : x ∉ m) : Ahead (m ++ l) a x := by
  obtain ⟨front, rest, rfl, ha, hx⟩ := h
  refine ⟨m ++ front, rest, (List.append_assoc ..).symm, List.mem_append_right m ha, ?_⟩
  rw [List.mem_append, not_or]
  exact ⟨hm, hx⟩

theorem of_mem (ha : a ∈ l) (hx : x ∉ l) (m : List α) : Ahead (l ++ m) a x := ⟨l, m, rfl, ha, hx⟩

theorem flatMap (h : Ahead l a x) {f : α → List β} {b y : β} (hb : b ∈ f a) (hy : ∀ z, y ∈ f z → z = x) :
    Ahead (l.flatMap f) b y := by
  obtain ⟨front, rest, rfl, ha, hx⟩ := h
  refine ⟨front.flatMap f, rest.flatMap f, List.flatMap_append, List.mem_flatMap.2 ⟨a, ha, hb⟩, fun hmem => ?_⟩
  obtain ⟨z, hz, hyz⟩ := List.mem_flatMap.1 hmem
  exact hx (hy z hyz ▸ hz)

/-- Whatever occurrence of `x` is looked at, `a` stands before it. -/
theorem mem {before after : List α} (h : Ahead (before ++ x :: after) a x) : a ∈ before := by
  obtain ⟨front, rest, heq, ha, hx⟩ := h
  rcases List.append_eq_append_iff.1 heq with ⟨more, rfl, hmore⟩ | ⟨more, rfl, -⟩
  · cases more with
    | nil => simpa using ha
    | cons y more =>
      obtain rfl := (List.cons.inj hmore).1
      exact absurd (List.mem_append_right before List.mem_cons_self) hx
  · exact List.mem_append_left _ ha

end Ahead

/-- The struct that a chunk has the function for, and the direction. -/
def Chunk.function? : Chunk → Option (Direction × Struct)
  | helper d t | entry d t => some (d, t)
  | _ => none

theorem not_mem_paragraphs {ch : Chunk} {blank : Nat} {ts : List Struct} {f : Struct → Chunk} (hf : ∀ t, ch ≠ f t)
    (hline : ch ≠ .line "") : ch ∉ paragraphs blank (ts.map f) := by
  intro hmem
  rcases mem_paragraphs hmem with hmem | hmem
  · obtain ⟨t, -, ht⟩ := List.mem_map.1 hmem
    exact hf t ht.symm
  · exact hline hmem

theorem Ahead.paragraphs {ts : List Struct} {u : Struct} (h : Ahead ts u t) (d : Direction) (blank : Nat) :
    Ahead (paragraphs blank (ts.map (.helper d))) (.helper d u) (.helper d t) := by
  have hne : ts ≠ [] := by
    obtain ⟨front, rest, rfl, hu, -⟩ := h
    exact List.append_ne_nil_of_left_ne_nil (List.ne_nil_of_mem hu) rest
  rw [paragraphs_map hne]
  refine h.flatMap List.mem_cons_self fun v hv => ?_
  simpa [eq_comm] using hv

/-- In the order, the structs that a struct refers to stand before it. -/
theorem ahead_structsOf (h : s.Sound) {target : String} {u : Struct} (ht : s.structs.find? name = some t)
    (hname : name ∈ s.helperOrder) (hu : s.structs.find? target = some u)
    (hrefers : s.outline.Refers name target) : Ahead (structsOf s s.helperOrder) u t := by
  obtain ⟨before, after, horder, htarget⟩ := h.precedes_helperOrder hname hrefers
  have hnodup := s.nodup_helperOrder
  rw [horder] at hnodup ⊢
  have hnew : name ∉ before := fun hmem => (List.nodup_append.1 hnodup).2.2 _ hmem _ List.mem_cons_self rfl
  refine ⟨structsOf s before, structsOf s (name :: after), List.filterMap_append ..,
    mem_structsOf.2 ⟨target, htarget, hu⟩, fun hmem => ?_⟩
  obtain ⟨n, hn, hfind⟩ := mem_structsOf.1 hmem
  obtain rfl : n = name := (h.indexed.name_of_find? hfind).symm.trans (h.indexed.name_of_find? ht)
  exact hnew hn

/-- The functions of a module are the helpers of the structs in the order, and those of the exported struct. -/
theorem function_cases {ch : Chunk} {d : Direction} (hch : ch ∈ moduleChunks c date s exported)
    (hfunction : ch.function? = some (d, t)) :
    ch = .helper d t ∧ t ∈ structsOf s s.helperOrder ∨ ch = .entry d t ∧ t = exported := by
  revert d t
  refine forall_mem_moduleChunks (p := fun ch => ∀ {t d}, ch.function? = some (d, t) →
    ch = .helper d t ∧ t ∈ structsOf s s.helperOrder ∨ ch = .entry d t ∧ t = exported) ?_ ?_ ?_ ?_ ?_ ch hch
  · rintro l - t d ⟨⟩
  · rintro u - t d ⟨⟩
  · rintro d u hu t d' hfunction
    obtain ⟨rfl, rfl⟩ := Prod.mk.inj (Option.some.inj hfunction)
    exact .inl ⟨rfl, hu⟩
  · rintro t d ⟨⟩
  · rintro d t d' hfunction
    obtain ⟨rfl, rfl⟩ := Prod.mk.inj (Option.some.inj hfunction)
    exact .inr ⟨rfl, rfl⟩

/-- A helper stands behind those of the structs that its struct refers to. -/
theorem ahead_helper {ts : List Struct} {u : Struct} (h : Ahead ts u t) (hts : ts = structsOf s s.helperOrder)
    (d : Direction) : Ahead (moduleChunks c date s exported) (.helper d u) (.helper d t) := by
  have hheader : .helper d t ∉ (headerLines (slotContent c date s exported)).map Chunk.line := by simp
  have htypes : .helper d t ∉ paragraphs 2 (ts.map (.type false)) := not_mem_paragraphs (by simp) (by simp)
  unfold moduleChunks
  rw [← hts]
  cases d with
  | write =>
    refine ((((h.paragraphs .write 1).prepend ?_).append _).append _).append _
    rw [List.mem_append, not_or]
    exact ⟨hheader, htypes⟩
  | read =>
    have hwriters : .helper .read t ∉ paragraphs 1 (ts.map (.helper .write)) :=
      not_mem_paragraphs (by simp) (by simp)
    refine ((h.paragraphs .read 1).prepend ?_).append _
    simp only [List.mem_append, not_or]
    exact ⟨⟨⟨hheader, htypes⟩, hwriters⟩, by simp⟩

/-- The exported functions stand behind all helpers. -/
theorem ahead_entry {u : Struct} (hu : u ∈ structsOf s s.helperOrder) (d : Direction) :
    Ahead (moduleChunks c date s exported) (.helper d u) (.entry d t) := by
  have hmem : .helper d u ∈ paragraphs 1 ((structsOf s s.helperOrder).map (.helper d)) := by
    rw [paragraphs_map (List.ne_nil_of_mem hu)]
    exact List.mem_flatMap.2 ⟨u, hu, List.mem_cons_self⟩
  have htypes : .entry d t ∉ paragraphs 2 ((structsOf s s.helperOrder).map (.type false)) :=
    not_mem_paragraphs (by simp) (by simp)
  have hhelpers (d' : Direction) : .entry d t ∉ paragraphs 1 ((structsOf s s.helperOrder).map (.helper d')) :=
    not_mem_paragraphs (by simp) (by simp)
  unfold moduleChunks
  refine Ahead.of_mem ?_ ?_ _
  · cases d with
    | write => exact List.mem_append_left _ (List.mem_append_left _ (List.mem_append_right _ hmem))
    | read => exact List.mem_append_right _ hmem
  · simp only [List.mem_append, not_or]
    exact ⟨⟨⟨⟨by simp, htypes⟩, hhelpers .write⟩, by simp⟩, hhelpers .read⟩

/-- The helpers that a function uses stand in front of it. -/
theorem ahead_moduleChunks (h : s.Sound) {ch : Chunk} {d : Direction} (hch : ch ∈ moduleChunks c date s exported)
    (hfunction : ch.function? = some (d, t)) {target : String} {u : Struct}
    (hu : s.structs.find? target = some u) (hrefers : s.outline.Refers t.name target) :
    Ahead (moduleChunks c date s exported) (.helper d u) ch := by
  rcases function_cases hch hfunction with ⟨rfl, ht⟩ | ⟨rfl, rfl⟩
  · obtain ⟨name, hname, ht⟩ := mem_structsOf.1 ht
    exact ahead_helper (ahead_structsOf h ht hname hu (h.indexed.name_of_find? ht ▸ hrefers)) rfl d
  · exact ahead_entry (mem_structsOf.2 ⟨target, h.mem_helperOrder_of_refers hrefers, hu⟩) d

/-! Statements and types. -/

/-- The statement calls the function that a variable holds, or passes it on. -/
def Statement.Uses (name : String) : Statement → Prop
  | declare _ => False
  | call _ function arguments => function = .var name ∨ .var name ∈ arguments

theorem uses_statement {type : TypeRef} {target : String} (htarget : type.element.structName? = some target)
    (d : Direction) {step : Step} (hcodec : step.codec = type.codec) :
    (step.statement d).Uses (d.helper target) := by
  have hcodec' : type.codec.expression d = .var (d.helper target) ∨
      .var (d.helper target) ∈ type.codec.extras d := by
    obtain ⟨element, shape⟩ := type
    cases element with
    | builtin b => cases htarget
    | struct name =>
      obtain rfl := Option.some.inj htarget
      cases shape <;> simp [TypeRef.codec, Codec.expression, Codec.extras, Direction.elementExpression]
  rw [← hcodec] at hcodec'
  cases d with
  | write => exact hcodec'.imp_right fun hmem => by simp [hmem]
  | read => exact hcodec'.imp_right fun hmem => by simp [hmem]

theorem Chunk.statement_mem_lines {ch : Chunk} {d : Direction} (hfunction : ch.function? = some (d, t))
    {step : Step} (hstep : step ∈ (Body.ofStruct t).steps) : c.indent ++ (step.statement d).text ∈ ch.lines c := by
  have hmem : c.indent ++ (step.statement d).text ∈ statementLines c d t := by
    refine List.mem_map_of_mem ?_
    cases d with
    | write => exact List.mem_map_of_mem hstep
    | read => exact List.mem_cons_of_mem _ (List.mem_map_of_mem hstep)
  cases ch with
  | line text => cases hfunction
  | type b u => cases hfunction
  | helper d' u =>
    obtain ⟨rfl, rfl⟩ := Prod.mk.inj (Option.some.inj hfunction)
    exact List.mem_cons_of_mem _ (List.mem_append_left _ hmem)
  | entry d' u =>
    obtain ⟨rfl, rfl⟩ := Prod.mk.inj (Option.some.inj hfunction)
    exact List.mem_cons_of_mem _ (List.mem_append_left _ (List.mem_append_right _ hmem))

theorem Body.forall₂_fields (t : Struct) :
    List.Forall₂ (fun step f => step.field = f.name ∧ step.codec = f.type.codec) (ofStruct t).steps t.fields :=
  forall₂_ofStruct (r := fun name codec f => name = f.name ∧ codec = f.type.codec)
    (List.forall₂_same.2 fun _ _ => ⟨rfl, rfl⟩)

/-- The types of structs that a chunk speaks of. -/
def Chunk.typeNames : Chunk → List String
  | line _ => []
  | type _ t => t.name :: t.fields.filterMap (·.type.element.structName?)
  | helper _ t | entry _ t => [t.name]

theorem mem_of_typeNames (h : s.Sound) (hexported : s.exported? = some exported) :
    ∀ ch ∈ moduleChunks c date s exported, ∀ name ∈ ch.typeNames, name ∈ s.helperOrder ∨ name = s.exports := by
  have hname : ∀ t ∈ structsOf s s.helperOrder, t.name ∈ s.helperOrder := by
    intro t ht
    obtain ⟨name, hmem, hfind⟩ := mem_structsOf.1 ht
    rwa [h.indexed.name_of_find? hfind]
  have htarget : ∀ {name t}, s.structs.find? name = some t →
      ∀ target ∈ t.fields.filterMap (·.type.element.structName?), target ∈ s.helperOrder := by
    intro name t ht target hmem
    obtain ⟨f, hf, htarget⟩ := List.mem_filterMap.1 hmem
    exact (h.target_of_field ht hf htarget).2
  refine forall_mem_moduleChunks (fun l _ => by simp [Chunk.typeNames]) (fun t ht => ?_) (fun d t ht => ?_) ?_
    fun d => ?_
  · obtain ⟨name, hmem, hfind⟩ := mem_structsOf.1 ht
    exact List.forall_mem_cons.2 ⟨.inl (hname t ht), fun target hmem => .inl (htarget hfind target hmem)⟩
  · exact List.forall_mem_singleton.2 (.inl (hname t ht))
  · exact List.forall_mem_cons.2 ⟨.inr (h.indexed.name_of_find? hexported),
      fun target hmem => .inl (htarget hexported target hmem)⟩
  · exact List.forall_mem_singleton.2 (.inr (h.indexed.name_of_find? hexported))

/-! Modules. -/

theorem exists_find?_of_function (hexported : s.exported? = some exported) {ch : Chunk} {d : Direction}
    (hch : ch ∈ moduleChunks c date s exported) (hfunction : ch.function? = some (d, t)) :
    ∃ name, s.structs.find? name = some t := by
  rcases function_cases hch hfunction with ⟨-, ht⟩ | ⟨-, rfl⟩
  · obtain ⟨name, -, hfind⟩ := mem_structsOf.1 ht
    exact ⟨name, hfind⟩
  · exact ⟨s.exports, hexported⟩

theorem helper_not_mem_variables (d : Direction) (target : String) (t : Struct) :
    d.helper target ∉ ownVariables ++ fieldVariables t := by
  rw [List.mem_append, not_or]
  refine ⟨helper_ne_own d target, fun hmem => ?_⟩
  have hfree := isTaken_fieldVariables _ hmem
  rw [isTaken_helper] at hfree
  cases hfree

/-- A helper is defined once in front of a function that uses it. -/
theorem count_defines_before (h : s.Sound) {before after : List Chunk} {ch : Chunk} {d : Direction} {target : String}
    (heq : moduleChunks c date s exported = before ++ ch :: after)
    (hfunction : ch.function? = some (d, t)) (hmem : target ∈ s.structs)
    (hrefers : s.outline.Refers t.name target) : (before.flatMap Chunk.defines).count (d.helper target) = 1 := by
  obtain ⟨u, hu⟩ := Table.exists_find?_of_mem hmem
  have hch : ch ∈ moduleChunks c date s exported := by simp [heq]
  have hahead := ahead_moduleChunks h hch hfunction hu hrefers
  rw [heq] at hahead
  have hpos : 0 < (before.flatMap Chunk.defines).count (d.helper target) := by
    rw [List.count_pos_iff, List.mem_flatMap]
    refine ⟨_, hahead.mem, ?_⟩
    rw [Chunk.defines, h.indexed.name_of_find? hu]
    exact List.mem_singleton_self _
  have hle : ((moduleChunks c date s exported).flatMap Chunk.defines).count (d.helper target) ≤ 1 := by
    rw [count_defines h]
    split <;> omega
  rw [heq, List.flatMap_append, List.count_append] at hle
  omega

/-- The lines of a module, made of the given chunks, declare once what its functions and types use. -/
structure WellScoped (c : Config) (s : Schema) (chunks : List Chunk) (lines : List String) : Prop where
  /-- The lines are those of the chunks, with nothing behind the last line feed. -/
  lines_eq : lines = chunks.flatMap (Chunk.lines c) ++ [""]
  /-- A function has a line for each field of its struct. Where the field is made of a struct, the line calls that
  struct's helper or passes it on. -/
  statements : ∀ ch ∈ chunks, ∀ d t, ch.function? = some (d, t) →
    List.Forall₂ (fun step f => step.field = f.name ∧ c.indent ++ (step.statement d).text ∈ ch.lines c ∧
        ∀ target, f.type.element.structName? = some target → (step.statement d).Uses (d.helper target))
      (Body.ofStruct t).steps t.fields
  /-- One line opens that helper. It stands in front of the function, none of whose variables has its name. -/
  helpers : ∀ before ch after d t, chunks = before ++ ch :: after → ch.function? = some (d, t) →
    ∀ f ∈ t.fields, ∀ target, f.type.element.structName? = some target →
      lines.countP (Defines (d.helper target) ·) = 1 ∧
      (before.flatMap (Chunk.lines c)).countP (Defines (d.helper target) ·) = 1 ∧
      d.helper target ∉ ownVariables ++ fieldVariables t
  /-- One line opens each type that a type or a function speaks of. -/
  types : ∀ ch ∈ chunks, ∀ name ∈ ch.typeNames, lines.countP (Declares name ·) = 1
  /-- No line opens a type or a helper of a struct that is neither exported nor referred to. -/
  unused : ∀ name ∈ s.structs, name ≠ s.exports → (∀ source, ¬ s.outline.Refers source name) →
    lines.countP (Declares name ·) = 0 ∧ ∀ d : Direction, lines.countP (Defines (d.helper name) ·) = 0

theorem wellScoped_moduleChunks (h : s.Sound) (hnames : ∀ name t, s.structs.find? name = some t → t.Printable)
    (hexported : s.exported? = some exported) :
    WellScoped c s (moduleChunks c date s exported)
      ((moduleChunks c date s exported).flatMap (Chunk.lines c) ++ [""]) := by
  have hid : ∀ {name}, name ∈ s.structs → IsIdentifier name.toList := by
    intro name hmem
    obtain ⟨t, ht⟩ := Table.exists_find?_of_mem hmem
    exact h.indexed.name_of_find? ht ▸ (hnames name t ht).name
  have hchunks : ∀ ch ∈ moduleChunks c date s exported, ch.Printable := printable_moduleChunks hnames hexported
  refine ⟨rfl, ?_, ?_, ?_, ?_⟩
  · intro ch hch d t hfunction
    obtain ⟨hlength, hzip⟩ := List.forall₂_iff_zip.1 (Body.forall₂_fields t)
    refine List.forall₂_iff_zip.2 ⟨hlength, fun hmem => ?_⟩
    obtain ⟨hfield, hcodec⟩ := hzip hmem
    exact ⟨hfield, ch.statement_mem_lines hfunction (List.of_mem_zip hmem).1,
      fun target htarget => uses_statement htarget d hcodec⟩
  · intro before ch after d t heq hfunction f hf target htarget
    have hch : ch ∈ moduleChunks c date s exported := by simp [heq]
    obtain ⟨name, ht⟩ := exists_find?_of_function hexported hch hfunction
    obtain ⟨hrefers, hlisted⟩ := h.target_of_field ht hf htarget
    have hmem := h.mem_structs_of_mem_helperOrder target hlisted
    refine ⟨(countP_defines h hchunks (hid hmem) d).trans (if_pos hlisted), ?_, helper_not_mem_variables d target t⟩
    have hbefore : ∀ x ∈ before, x.Printable := fun x hx => hchunks x (heq ▸ List.mem_append_left _ hx)
    rw [Chunk.countP_defines hbefore (isIdentifier_helper d (hid hmem))]
    exact count_defines_before h heq hfunction hmem hrefers
  · intro ch hch name hname
    have hlisted := mem_of_typeNames h hexported ch hch name hname
    have hmem : name ∈ s.structs := by
      rcases hlisted with hlisted | rfl
      · exact h.mem_structs_of_mem_helperOrder name hlisted
      · exact h.exported
    rw [countP_declares h hexported hchunks (hid hmem), if_pos hlisted]
  · intro name hmem hne hunused
    have hlisted : name ∉ s.helperOrder := by
      intro hlisted
      obtain ⟨-, source, hrefers⟩ := h.mem_helperOrder_iff.1 hlisted
      exact hunused source hrefers
    constructor
    · rw [countP_declares h hexported hchunks (hid hmem), if_neg (not_or.2 ⟨hlisted, hne⟩)]
    · intro d
      rw [countP_defines h hchunks (hid hmem) d, if_neg hlisted]

/-! Compiled texts. -/

theorem result_generate (c : Config) (date : Timestamp) (s : Schema) : (generate c date s).result =
    match s.exported? with
    | none => .error (.exportNotFound s.exports)
    | some exported => .ok ⟨fileName s, Template.codecModule.fill (slotContent c date s exported)⟩ := by
  simp only [generate, Logged.result_bind, Logged.result_tell, Logged.result_pure]
  unfold render
  cases s.exported? with
  | none => rfl
  | some exported => rfl

theorem compile_eq_ok_iff {source : String} {file : SourceFile} : compile c date source = .ok file ↔
    ∃ s exported, Schema.ofText source = .ok s ∧ s.exported? = some exported ∧
      file = ⟨fileName s, Template.codecModule.fill (slotContent c date s exported)⟩ := by
  rw [compile, bind_eq_ok_iff]
  refine exists_congr fun s => ?_
  rw [result_generate]
  cases s.exported? with
  | none => simp
  | some exported => simp [eq_comm]

/-- A text that is accepted is compiled, since its schema has the struct that it exports. -/
theorem compile_of_ofText {source : String} (h : Schema.ofText source = .ok s) : ∃ exported,
    s.exported? = some exported ∧
      compile c date source = .ok ⟨fileName s, Template.codecModule.fill (slotContent c date s exported)⟩ := by
  obtain ⟨tokens, -, hparse⟩ := bind_eq_ok_iff.1 h
  obtain ⟨exported, hexported⟩ := Table.exists_find?_of_mem (Schema.sound_of_parse hparse).exported
  exact ⟨exported, hexported, compile_eq_ok_iff.2 ⟨s, exported, h, hexported, rfl⟩⟩

/-- Whatever text is compiled, and however it is laid out: the module is well scoped. -/
theorem compile_wellScoped {indentSpaces returnIndent : Nat} {source : String} {file : SourceFile}
    (h : compile { indentSpaces, returnIndent } date source = .ok file) :
    ∃ s exported, Schema.ofText source = .ok s ∧ s.exported? = some exported ∧
      WellScoped { indentSpaces, returnIndent } s (moduleChunks { indentSpaces, returnIndent } date s exported)
        (Text.splitAt '\n' file.content) := by
  obtain ⟨s, exported, htext, hexported, rfl⟩ := compile_eq_ok_iff.1 h
  obtain ⟨tokens, -, hparse⟩ := bind_eq_ok_iff.1 htext
  have hsound := Schema.sound_of_parse hparse
  have hnames : ∀ name t, s.structs.find? name = some t → t.Printable :=
    fun _ _ ht => Schema.printable_of_parse hparse ht
  have hexports : OneLine s.exports := by
    rw [← hsound.indexed.name_of_find? hexported]
    exact Text.oneLine_of_isIdentifier (hnames _ _ hexported).name
  have hlegible : Config.Legible { indentSpaces, returnIndent } :=
    ⟨(by decide : OneLine "squishy-compiler"), (by decide : OneLine "script.Parent"), (by decide : OneLine ".")⟩
  refine ⟨s, exported, htext, hexported, ?_⟩
  rw [splitAt_fill hlegible hexported hexports (hnames _ _ hexported) (printable_structsOf hnames s.helperOrder)]
  exact wellScoped_moduleChunks hsound hnames hexported

theorem pair_module_wellScoped :
    ∃ file, compile { indentSpaces := 2, returnIndent := 6 } ⟨2024, 2, 29, 23, 59, 59⟩
        "struct A \x7b field map : u8 \x7d struct B \x7b field cursor [ 007 ] A \x7d exports B" = .ok file ∧
      (Text.splitAt '\n' file.content).countP (Declares "A" ·) = 1 ∧
      (Text.splitAt '\n' file.content).countP (Defines "write_A" ·) = 1 ∧
      (Text.splitAt '\n' file.content).countP (Defines "read_A" ·) = 1 := by
  obtain ⟨tokens, s, hscan, hparse, houtline⟩ := Schema.exists_accepted_pair
  have hsound := Schema.sound_of_parse hparse
  have htext : Schema.ofText _ = .ok s := bind_eq_ok_iff.2 ⟨tokens, hscan, hparse⟩
  obtain ⟨exported, hexported⟩ := Table.exists_find?_of_mem hsound.exported
  obtain ⟨file, hcompile⟩ : ∃ file, compile { indentSpaces := 2, returnIndent := 6 } ⟨2024, 2, 29, 23, 59, 59⟩ _ =
      .ok file :=
    ⟨_, compile_eq_ok_iff.2 ⟨s, exported, htext, hexported, rfl⟩⟩
  refine ⟨file, hcompile, ?_⟩
  obtain ⟨s', exported', htext', hexported', hscoped⟩ := compile_wellScoped hcompile
  obtain rfl : s = s' := Except.ok.inj (htext.symm.trans htext')
  -- the exported struct is the second one, whose only field is made of the first
  have hfield : ∃ f ∈ exported'.fields, f.type.element.structName? = some "A" := by
    have hmem : exported'.declaration ∈ s.outline.structs :=
      List.mem_map_of_mem (List.mem_map_of_mem (f := Prod.snd) (Table.find?_eq_some_iff.1 hexported'))
    have hname : exported'.declaration.name = "B" :=
      (hsound.indexed.name_of_find? hexported').trans (congrArg Outline.exports houtline)
    have hpair : ∀ d ∈ Schema.pairOutline.structs, d.name = "B" →
        ∃ f ∈ d.fields, f.type.element.structName? = some "A" := by decide
    rw [houtline] at hmem
    exact hpair _ hmem hname
  obtain ⟨f, hf, htarget⟩ := hfield
  have hhelper : ∀ d : Direction, (Text.splitAt '\n' file.content).countP (Defines (d.helper "A") ·) = 1 := by
    intro d
    have hentry : .entry d exported' ∈ moduleChunks { indentSpaces := 2, returnIndent := 6 }
        ⟨2024, 2, 29, 23, 59, 59⟩ s exported' := by
      unfold moduleChunks
      cases d <;> simp
    obtain ⟨before, after, hsplit⟩ := List.append_of_mem hentry
    exact (hscoped.helpers before _ after d exported' hsplit rfl f hf "A" htarget).1
  refine ⟨hscoped.types (.type true exported') ?_ "A" ?_, hhelper .write, hhelper .read⟩
  · unfold moduleChunks
    simp
  · exact List.mem_cons_of_mem _ (List.mem_filterMap.2 ⟨f, hf, htarget⟩)

end Luau

end BufferSchema
