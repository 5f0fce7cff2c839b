import BufferSchema.Proofs.Luau.Lines
import BufferSchema.Proofs.Schema.HelperOrder
import Mathlib.Data.List.Count

/-!
# What a module contains

The schemas that are accepted give names that can be written as they are. The module of such a schema has two
helpers and a type for every struct in the order of helpers, and a type for the exported one. Each of them is there
once.
-/

namespace BufferSchema

open Schema.Parser
open Text (IsIdentifier OneLine)

/-! The names of accepted schemas. -/

namespace Schema

theorem Parser.identifier_of_typeSyntax {type : TypeRef} {us : List Token} (h : TypeSyntax type us) :
    IsIdentifier type.element.name.toList := by
  cases h with
  | scalar ht | fixedArray _ _ _ _ ht | dynamicArray _ _ _ ht | map _ ht _ _ =>
    rw [Element.name_ofName]
    exact ht.faultless.identifier

theorem Parser.identifiers_of_fieldSyntax {fs : List Field} {uss : List (List Token)}
    (h : List.Forall₂ FieldSyntax fs uss) :
    ∀ f ∈ fs, IsIdentifier f.name.toList ∧ IsIdentifier f.type.element.name.toList := by
  induction h with
  | nil => simp
  | cons hf _ ih =>
    refine List.forall_mem_cons.2 ⟨?_, ih⟩
    cases hf with
    | plain _ hname _ htype | colon _ hname _ _ htype => exact ⟨hname.identifier, identifier_of_typeSyntax htype⟩

/-- A struct that is spelled in a text has fields, and all its names are identifiers. -/
theorem Parser.printable_of_structSyntax {t : Struct} {us : List Token} (h : StructSyntax t us) : t.Printable := by
  have hname := (name_of_structSyntax h).identifier
  have hne := fields_ne_nil_of_structSyntax h
  cases h with
  | intro _ _ _ _ _ _ hfields =>
    have hall := identifiers_of_fieldSyntax hfields
    refine ⟨hname, hne, fun f hf => ?_, fun f hf => ?_⟩
    · exact (hall f (by simpa [fields_foldl_push] using hf)).1
    · exact (hall f (by simpa [fields_foldl_push] using hf)).2

variable {s : Schema} {name : String} {t : Struct}

/-- The names of a schema are good ones as soon as it has been read, whatever the analysis finds. -/
theorem printable_of_ofTokens {tokens : TokenStream} {read : Schema} (hread : ofTokens tokens = .ok read)
    (ht : read.markReferences.structs.find? name = some t) : t.Printable := by
  rw [find?_markReferences, Option.map_eq_some_iff] at ht
  obtain ⟨t, ht, rfl⟩ := ht
  obtain ⟨-, us, hus⟩ := (structSyntax_of_ofTokens hread).2 _ (Table.find?_eq_some_iff.1 ht)
  have hsame := t.declaration_markAll (read.referrers name)
  simp only [Struct.declaration, Declaration.mk.injEq] at hsame
  have hprintable := printable_of_structSyntax hus
  exact ⟨hsame.1 ▸ hprintable.name, hsame.2 ▸ hprintable.fields_ne_nil, hsame.2 ▸ hprintable.fields,
    hsame.2 ▸ hprintable.elements⟩

theorem printable_of_parse {tokens : TokenStream} (hparse : (parse tokens).result = .ok s)
    (ht : s.structs.find? name = some t) : t.Printable := by
  obtain ⟨read, hread, -, rfl⟩ := parse_eq_ok_iff.1 hparse
  exact printable_of_ofTokens hread ht

theorem Indexed.name_of_find? (h : s.Indexed) (ht : s.structs.find? name = some t) : t.name = name :=
  (h _ (Table.find?_eq_some_iff.1 ht)).1.symm

/-- What a struct refers to needs a helper. -/
theorem Sound.mem_helperOrder_of_refers (h : s.Sound) {source target : String}
    (hrefers : s.outline.Refers source target) : target ∈ s.helperOrder := by
  refine h.mem_helperOrder_iff.2 ⟨?_, source, hrefers⟩
  rintro rfl
  exact h.unreferenced source hrefers

/-- A struct that a field refers to gets helpers of its own. -/
theorem Sound.target_of_field (h : s.Sound) (ht : s.structs.find? name = some t) {f : Field} (hf : f ∈ t.fields)
    {target : String} (htarget : f.type.element.structName? = some target) :
    s.outline.Refers t.name target ∧ target ∈ s.helperOrder := by
  have hrefers : s.outline.Refers t.name target :=
    ⟨t.declaration, List.mem_map_of_mem (List.mem_map_of_mem (f := Prod.snd) (Table.find?_eq_some_iff.1 ht)), rfl,
      f, hf, htarget⟩
  exact ⟨hrefers, h.mem_helperOrder_of_refers hrefers⟩

theorem Sound.mem_structs_of_mem_helperOrder (h : s.Sound) : ∀ name ∈ s.helperOrder, name ∈ s.structs := by
  intro name hname
  obtain ⟨-, source, hrefers⟩ := h.mem_helperOrder_iff.1 hname
  exact h.declared source name hrefers

end Schema

namespace Luau

variable {c : Config} {date : Timestamp} {s : Schema} {exported : Struct} {names : List String} {name : String}
  {t : Struct}

/-! Structs by their names. -/

theorem mem_structsOf : t ∈ structsOf s names ↔ ∃ name ∈ names, s.structs.find? name = some t :=
  List.mem_filterMap

theorem printable_structsOf (h : ∀ name t, s.structs.find? name = some t → t.Printable) (names : List String) :
    ∀ t ∈ structsOf s names, t.Printable := by
  intro t ht
  obtain ⟨name, -, hfind⟩ := mem_structsOf.1 ht
  exact h name t hfind

theorem map_name_structsOf (h : s.Indexed) (hnames : ∀ name ∈ names, name ∈ s.structs) :
    (structsOf s names).map (·.name) = names := by
  induction names with
  | nil => rfl
  | cons name names ih =>
    obtain ⟨t, ht⟩ := Table.exists_find?_of_mem (hnames name List.mem_cons_self)
    have hrest := ih fun n hn => hnames n (List.mem_cons_of_mem name hn)
    rw [structsOf] at hrest ⊢
    rw [List.filterMap_cons_some ht, List.map_cons, h.name_of_find? ht, hrest]

/-! What the chunks of a module define and declare. -/

theorem silent_headerLines (content : Slot → String) : ∀ l ∈ headerLines content, Silent l := by
  simp only [headerLines, List.forall_mem_cons, String.append_assoc]
  and_intros
  all_goals first
    | exact silent_of_not_isPrefix (by decide)
    | exact silent_append (by decide) _
    | simp

/-- Whatever stands in a module comes from a struct that can be printed. -/
theorem printable_moduleChunks (h : ∀ name t, s.structs.find? name = some t → t.Printable)
    (hexported : s.exported? = some exported) : ∀ ch ∈ moduleChunks c date s exported, ch.Printable := by
  have hts := printable_structsOf h s.helperOrder
  have hlast := h s.exports exported hexported
  refine forall_mem_moduleChunks (fun l hl => ?_) hts (fun _ => hts) hlast fun _ => hlast
  rcases List.mem_append.1 hl with hl | hl
  · exact silent_headerLines _ l hl
  · exact silent_of_mem (by decide) l hl

/-- Blank lines between the pieces of a module count for nothing. -/
theorem flatMap_paragraphs {α : Type} {f : Chunk → List α} (hf : ∀ text, f (.line text) = []) (blank : Nat)
    (chs : List Chunk) : (paragraphs blank chs).flatMap f = chs.flatMap f := by
  cases chs with
  | nil =>
    rw [paragraphs, List.flatMap_nil, List.flatMap_eq_nil_iff]
    exact fun ch hch => List.eq_of_mem_replicate hch ▸ hf ""
  | cons ch chs =>
    rw [paragraphs, List.flatMap_assoc]
    simp [hf]

/-- A module defines a helper for each direction and each struct that is referred to, in the order of these. -/
theorem defines_moduleChunks (h : s.Sound) : (moduleChunks c date s exported).flatMap Chunk.defines =
    s.helperOrder.map (Direction.helper .write) ++ s.helperOrder.map (Direction.helper .read) := by
  have hnames := map_name_structsOf h.indexed h.mem_structs_of_mem_helperOrder
  have hhelpers : ∀ d : Direction, ((structsOf s s.helperOrder).map (Chunk.helper d)).flatMap Chunk.defines =
      s.helperOrder.map d.helper := by
    intro d
    conv_rhs => rw [← hnames]
    rw [List.flatMap_map, List.map_map, List.map_eq_flatMap]
    rfl
  have htypes : ((structsOf s s.helperOrder).map (Chunk.type false)).flatMap Chunk.defines = [] := by
    simp [List.flatMap_map, Chunk.defines]
  have hlines : ∀ ls : List String, (ls.map Chunk.line).flatMap Chunk.defines = [] := by
    simp [List.flatMap_map, Chunk.defines]
  unfold moduleChunks
  simp only [List.flatMap_append, flatMap_paragraphs (f := Chunk.defines) fun _ => rfl, hhelpers, htypes, hlines]
  simp [Chunk.defines]

theorem declares_moduleChunks (h : s.Sound) (hexported : s.exported? = some exported) :
    (moduleChunks c date s exported).flatMap Chunk.declares = s.helperOrder ++ [s.exports] := by
  have hnames := map_name_structsOf h.indexed h.mem_structs_of_mem_helperOrder
  have hhelpers (d : Direction) :
      ((structsOf s s.helperOrder).map (Chunk.helper d)).flatMap Chunk.declares = [] := by
    simp [List.flatMap_map, Chunk.declares]
  have htypes : ((structsOf s s.helperOrder).map (Chunk.type false)).flatMap Chunk.declares = s.helperOrder := by
    conv_rhs => rw [← hnames]
    rw [List.flatMap_map, List.map_eq_flatMap]
    rfl
  have hlines : ∀ ls : List String, (ls.map Chunk.line).flatMap Chunk.declares = [] := by
    simp [List.flatMap_map, Chunk.declares]
  unfold moduleChunks
  simp only [List.flatMap_append, flatMap_paragraphs (f := Chunk.declares) fun _ => rfl, hhelpers, htypes, hlines]
  simp [Chunk.declares, h.indexed.name_of_find? hexported]

/-- Every helper is defined once, and only the structs in the order have one. -/
theorem count_defines (h : s.Sound) (d : Direction) (name : String) :
    ((moduleChunks c date s exported).flatMap Chunk.defines).count (d.helper name) =
      if name ∈ s.helperOrder then 1 else 0 := by
  have hsame : (s.helperOrder.map d.helper).count (d.helper name) = if name ∈ s.helperOrder then 1 else 0 := by
    rw [List.count_map_of_injective _ _ fun _ _ => d.helper_injective, s.nodup_helperOrder.count]
  rw [defines_moduleChunks h, List.count_append]
  cases d with
  | write =>
    have hother : (s.helperOrder.map (Direction.helper .read)).count (Direction.helper .write name) = 0 := by
      rw [List.count_eq_zero, List.mem_map]
      rintro ⟨n, -, hn⟩
      exact Direction.write_helper_ne_read_helper name n hn.symm
    rw [hsame, hother, Nat.add_zero]
  | read =>
    have hother : (s.helperOrder.map (Direction.helper .write)).count (Direction.helper .read name) = 0 := by
      rw [List.count_eq_zero, List.mem_map]
      rintro ⟨n, -, hn⟩
      exact Direction.write_helper_ne_read_helper n name hn
    rw [hsame, hother, Nat.zero_add]

/-- Every type is declared once, and only the exported struct and those in the order have one. -/
theorem count_declares (h : s.Sound) (hexported : s.exported? = some exported) (name : String) :
    ((moduleChunks c date s exported).flatMap Chunk.declares).count name =
      if name ∈ s.helperOrder ∨ name = s.exports then 1 else 0 := by
  have hnodup : (s.helperOrder ++ [s.exports]).Nodup := by
    rw [List.nodup_append]
    refine ⟨s.nodup_helperOrder, by simp, fun a ha b hb => ?_⟩
    rw [List.mem_singleton.1 hb]
    exact (h.mem_helperOrder_iff.1 ha).1
  rw [declares_moduleChunks h hexported, hnodup.count]
  simp only [List.mem_append, List.mem_singleton]

/-! The lines that open helpers and types. -/

/-- On the lines of a module, a helper is defined once if the struct is referred to, and else not at all. -/
theorem countP_defines (h : s.Sound) (hchunks : ∀ ch ∈ moduleChunks c date s exported, ch.Printable)
    (hname : IsIdentifier name.toList) (d : Direction) :
    ((moduleChunks c date s exported).flatMap (Chunk.lines c) ++ [""]).countP (Defines (d.helper name) ·) =
      if name ∈ s.helperOrder then 1 else 0 := by
  have hempty : Silent "" := silent_of_not_isPrefix (by decide)
  have hhelper := isIdentifier_helper d hname
  rw [List.countP_append, Chunk.countP_defines hchunks hhelper, count_defines h]
  simp [(hempty _ hhelper).1]

theorem countP_declares (h : s.Sound) (hexported : s.exported? = some exported)
    (hchunks : ∀ ch ∈ moduleChunks c date s exported, ch.Printable) (hname : IsIdentifier name.toList) :
    ((moduleChunks c date s exported).flatMap (Chunk.lines c) ++ [""]).countP (Declares name ·) =
      if name ∈ s.helperOrder ∨ name = s.exports then 1 else 0 := by
  have hempty : Silent "" := silent_of_not_isPrefix (by decide)
  rw [List.countP_append, Chunk.countP_declares hchunks hname, count_declares h hexported]
  simp [(hempty _ hname).2]

end Luau

end BufferSchema
