import BufferSchema.Proofs.Luau.WellScoped
import BufferSchema.Proofs.Schema.Reordering
import Mathlib.Logic.Function.Basic

/-!
# Modules of structs in another order

What is generated for a struct is made of its declaration alone. So two accepted texts with the same structs in
another order give modules of the same pieces: types and helpers are listed in another order, and all else is
the same text.
-/

namespace BufferSchema

open Schema.Parser (bind_eq_ok_iff)

namespace Schema

variable {s s' : Schema} {name : String}

/-- A table finds what the text of the schema declares under a name. -/
theorem Indexed.declaration_iff (h : s.Indexed) {d : Declaration} :
    (s.structs.find? name).map Struct.declaration = some d ↔ d ∈ s.outline.structs ∧ d.name = name := by
  rw [Option.map_eq_some_iff]
  constructor
  · rintro ⟨t, ht, rfl⟩
    have hmem : t ∈ s.structs.values := List.mem_map_of_mem (f := Prod.snd) (Table.find?_eq_some_iff.1 ht)
    exact ⟨List.mem_map_of_mem hmem, h.name_of_find? ht⟩
  · rintro ⟨hd, rfl⟩
    obtain ⟨t, ht, rfl⟩ := List.mem_map.1 hd
    obtain ⟨⟨key, t⟩, hmem, rfl⟩ := List.mem_map.1 ht
    refine ⟨t, Table.find?_eq_some_iff.2 ?_, rfl⟩
    rw [Struct.declaration, ← (h _ hmem).1]
    exact hmem

/-- Two schemas that export the same and declare the same under every name. -/
structure SameDeclarations (s s' : Schema) : Prop where
  exports : s'.exports = s.exports
  declaration : ∀ name,
    (s.structs.find? name).map Struct.declaration = (s'.structs.find? name).map Struct.declaration

theorem SameDeclarations.exported (h : s.SameDeclarations s') {exported exported' : Struct}
    (hexported : s.exported? = some exported) (hexported' : s'.exported? = some exported') :
    exported.declaration = exported'.declaration := by
  have hfound := h.declaration s.exports
  rw [exported?] at hexported hexported'
  rw [hexported, ← h.exports, hexported'] at hfound
  exact Option.some.inj hfound

/-- Two accepted schemas that say the same, up to the order of the structs. -/
structure Matches (s s' : Schema) : Prop where
  left : s.Sound
  right : s'.Sound
  structs : s.outline.structs.Perm s'.outline.structs
  exports : s'.exports = s.exports

namespace Matches

theorem sameDeclarations (h : s.Matches s') : s.SameDeclarations s' := by
  refine ⟨h.exports, fun name => ?_⟩
  ext d
  rw [h.left.indexed.declaration_iff, h.right.indexed.declaration_iff, h.structs.mem_iff]

/-- The same structs need helpers. -/
theorem helperOrder_perm (h : s.Matches s') : s.helperOrder.Perm s'.helperOrder := by
  rw [List.perm_ext_iff_of_nodup s.nodup_helperOrder s'.nodup_helperOrder]
  intro name
  have hrefers : s.outline.Refers = s'.outline.Refers := Outline.refers_perm h.structs
  rw [h.left.mem_helperOrder_iff, h.right.mem_helperOrder_iff, h.exports, hrefers]

end Matches

end Schema

namespace Luau

variable {c : Config} {date : Timestamp} {s s' : Schema} {t t' : Struct} {keyword indent : String}

/-! What is generated for a struct depends on its declaration. -/

theorem typeDeclaration_factors : Function.FactorsThrough (typeDeclaration keyword indent) Struct.declaration := by
  rintro t t' h
  obtain ⟨hname, hfields⟩ := Declaration.mk.inj h
  rw [typeDeclaration, hname, hfields, typeDeclaration]

theorem Body.ofStruct_factors : Function.FactorsThrough Body.ofStruct Struct.declaration := by
  rintro t t' h
  obtain ⟨-, hfields⟩ := Declaration.mk.inj h
  rw [Body.ofStruct, fieldVariables, hfields, Body.ofStruct, fieldVariables]

theorem writerHelper_factors : Function.FactorsThrough (writerHelper indent) Struct.declaration := by
  rintro t t' h
  have hname : t.name = t'.name := congrArg Declaration.name h
  unfold writerHelper
  rw [hname, Body.ofStruct_factors h]

theorem readerHelper_factors : Function.FactorsThrough (readerHelper indent) Struct.declaration := by
  rintro t t' h
  have hname : t.name = t'.name := congrArg Declaration.name h
  unfold readerHelper
  rw [hname, Body.ofStruct_factors h]

theorem helpers_congr {f : Struct → String} (h : s.SameDeclarations s')
    (hf : Function.FactorsThrough f Struct.declaration) (names : List String) :
    helpers s names f = helpers s' names f := by
  have hmap : ∀ s : Schema, helpers s names f =
      (names.filterMap fun name => (s.structs.find? name).map Struct.declaration).map
        (Function.extend Struct.declaration f fun _ => "") := by
    intro s
    rw [← List.map_filterMap, List.map_map, hf.extend_comp, helpers, structsOf]
  rw [hmap, hmap, funext h.declaration]

/-- Whatever is generated for the structs that need helpers is the same, up to its order. -/
theorem perm_helpers {f : Struct → String} (h : s.Matches s') (hf : Function.FactorsThrough f Struct.declaration) :
    (helpers s s.helperOrder f).Perm (helpers s' s'.helperOrder f) := by
  rw [← helpers_congr h.sameDeclarations hf]
  exact (h.helperOrder_perm.filterMap _).map _

/-- All slots but those of types and helpers depend on what is declared under each name, and not on the order. -/
theorem slotContent_elsewhere (h : s.SameDeclarations s') {exported exported' : Struct}
    (hexported : s.exported? = some exported) (hexported' : s'.exported? = some exported') {slot : Slot}
    (htypes : slot ≠ .types) (hwriters : slot ≠ .writers) (hreaders : slot ≠ .readers) :
    slotContent c date s exported slot = slotContent c date s' exported' slot := by
  have hsame := h.exported hexported hexported'
  have hname : exported.name = exported'.name := congrArg Declaration.name hsame
  have hbody : Body.ofStruct exported = Body.ofStruct exported' := Body.ofStruct_factors hsame
  unfold slotContent
  cases slot with
  | types => exact absurd rfl htypes
  | writers => exact absurd rfl hwriters
  | readers => exact absurd rfl hreaders
  | file => rw [fileName, fileName, h.exports]
  | exportType =>
    rw [exportDeclaration, exportDeclaration, hexported, hexported']
    exact typeDeclaration_factors hsame
  | author | date | writerModule | readerModule => rfl
  | brief | writeSignature | readSignature => dsimp only; rw [hname]
  | writeBody | readBody | readReturn => dsimp only; rw [hbody]

/-- Two modules are put together from the same pieces. The types and the helpers may stand in another order, all
other slots hold the same texts. -/
structure SamePieces (c : Config) (date : Timestamp) (s s' : Schema) (exported exported' : Struct) : Prop where
  fileName : fileName s = fileName s'
  types : (helpers s s.helperOrder (typeDeclaration "type" c.indent)).Perm
    (helpers s' s'.helperOrder (typeDeclaration "type" c.indent))
  writers : (helpers s s.helperOrder (writerHelper c.indent)).Perm
    (helpers s' s'.helperOrder (writerHelper c.indent))
  readers : (helpers s s.helperOrder (readerHelper c.indent)).Perm
    (helpers s' s'.helperOrder (readerHelper c.indent))
  elsewhere : ∀ slot, slot ≠ .types → slot ≠ .writers → slot ≠ .readers →
    slotContent c date s exported slot = slotContent c date s' exported' slot

theorem samePieces_of_matches (h : s.Matches s') {exported exported' : Struct}
    (hexported : s.exported? = some exported) (hexported' : s'.exported? = some exported') :
    SamePieces c date s s' exported exported' where
  fileName := by rw [fileName, fileName, h.exports]
  types := perm_helpers h typeDeclaration_factors
  writers := perm_helpers h writerHelper_factors
  readers := perm_helpers h readerHelper_factors
  elsewhere := fun _ htypes hwriters hreaders =>
    slotContent_elsewhere h.sameDeclarations hexported hexported' htypes hwriters hreaders

/-! Texts with their structs in another order. -/

theorem exists_file_of_reordered {source source' : String} (h : Reordered source source')
    (hfile : ∃ file, compile c date source = .ok file) : ∃ file, compile c date source' = .ok file := by
  obtain ⟨file, hfile⟩ := hfile
  obtain ⟨s, exported, htext, -, -⟩ := compile_eq_ok_iff.1 hfile
  obtain ⟨s', htext', -, -⟩ := Schema.ofText_reordered h htext
  obtain ⟨exported', -, hfile'⟩ := compile_of_ofText htext'
  exact ⟨_, hfile'⟩

/-- In whatever order a text defines its structs, it is compiled or it is not. The modules that come out are put
together from the same types, helpers and other texts. -/
theorem compile_reordered (c : Config) (date : Timestamp) {source source' : String} (h : Reordered source source') :
    ((∃ file, compile c date source = .ok file) ↔ ∃ file, compile c date source' = .ok file) ∧
    ∀ file file', compile c date source = .ok file → compile c date source' = .ok file' →
      ∃ s s' exported exported', Schema.ofText source = .ok s ∧ Schema.ofText source' = .ok s' ∧
        s.exported? = some exported ∧ s'.exported? = some exported' ∧
        file = ⟨fileName s, Template.codecModule.fill (slotContent c date s exported)⟩ ∧
        file' = ⟨fileName s', Template.codecModule.fill (slotContent c date s' exported')⟩ ∧
        SamePieces c date s s' exported exported' := by
  refine ⟨⟨exists_file_of_reordered h, exists_file_of_reordered h.symm⟩, fun file file' hfile hfile' => ?_⟩
  obtain ⟨s, exported, htext, hexported, rfl⟩ := compile_eq_ok_iff.1 hfile
  obtain ⟨s', exported', htext', hexported', rfl⟩ := compile_eq_ok_iff.1 hfile'
  refine ⟨s, s', exported, exported', htext, htext', hexported, hexported', rfl, rfl, ?_⟩
  obtain ⟨s'', htext'', hstructs, hexports⟩ := Schema.ofText_reordered h htext
  obtain rfl : s' = s'' := Except.ok.inj (htext'.symm.trans htext'')
  obtain ⟨tokens, -, hparse⟩ := bind_eq_ok_iff.1 htext
  obtain ⟨tokens', -, hparse'⟩ := bind_eq_ok_iff.1 htext'
  exact samePieces_of_matches
    ⟨Schema.sound_of_parse hparse, Schema.sound_of_parse hparse', hstructs, hexports⟩ hexported hexported'

theorem compile_swapped_pair :
    Reordered "struct A \x7b field map : u8 \x7d struct B \x7b field cursor [ 007 ] A \x7d exports B"
        "struct B \x7b field cursor [ 007 ] A \x7d struct A \x7b field map : u8 \x7d exports B" ∧
      ∃ file file', compile {} ⟨2024, 2, 29, 23, 59, 59⟩
          "struct A \x7b field map : u8 \x7d struct B \x7b field cursor [ 007 ] A \x7d exports B" = .ok file ∧
        compile {} ⟨2024, 2, 29, 23, 59, 59⟩
          "struct B \x7b field cursor [ 007 ] A \x7d struct A \x7b field map : u8 \x7d exports B" = .ok file' ∧
        file'.name = file.name ∧ file.name = "B.luau" := by
  have hswapped : Reordered "struct A \x7b field map : u8 \x7d struct B \x7b field cursor [ 007 ] A \x7d exports B"
      "struct B \x7b field cursor [ 007 ] A \x7d struct A \x7b field map : u8 \x7d exports B" := by
    refine ⟨[["struct", "A", "\x7b", "field", "map", ":", "u8", "\x7d"],
      ["struct", "B", "\x7b", "field", "cursor", "[", "007", "]", "A", "\x7d"]], _, 2, "B", ?_,
      List.Perm.swap _ _ _, by decide +kernel, by decide +kernel⟩
    simp only [List.forall_mem_cons, List.not_mem_nil, false_implies, implies_true, and_true]
    exact ⟨⟨_, rfl, by decide, by decide⟩, ⟨_, rfl, by decide, by decide⟩⟩
  obtain ⟨tokens, s, hscan, hparse, houtline⟩ := Schema.exists_accepted_pair
  have htext : Schema.ofText _ = .ok s := bind_eq_ok_iff.2 ⟨tokens, hscan, hparse⟩
  obtain ⟨exported, -, hfile⟩ := compile_of_ofText htext
  obtain ⟨hiff, hpieces⟩ := compile_reordered {} ⟨2024, 2, 29, 23, 59, 59⟩ hswapped
  obtain ⟨file', hfile'⟩ := hiff.1 ⟨_, hfile⟩
  obtain ⟨_, _, _, _, -, -, -, -, hfirst, hsecond, hsame⟩ := hpieces _ _ hfile hfile'
  refine ⟨hswapped, _, file', hfile, hfile', ?_, ?_⟩
  · rw [hsecond, hfirst]
    exact hsame.fileName.symm
  · have hexports : s.exports = "B" := congrArg Outline.exports houtline
    have hname : fileName s = "B" ++ ".luau" := congrArg (· ++ ".luau") hexports
    exact hname

end Luau

end BufferSchema
