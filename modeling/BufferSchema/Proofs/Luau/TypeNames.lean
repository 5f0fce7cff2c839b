import BufferSchema.Proofs.Luau.WellScoped
import BufferSchema.Proofs.Schema.Reliable

/-!
# Structs with the names of Luau types

The names of structs are checked against the built-in types as a schema spells them. A module has them under the
names of Luau, which a struct may have as well, all but one: only `string` is spelled alike on both sides. A field
made of such a struct then has the type of a field made of the built-in one, and the module declares this type itself.
-/

namespace BufferSchema

open Schema.Parser
open Outline (Nameable)

/-! Schemas of one struct. -/

namespace Schema

variable {name : String}

/-- One struct, with one field. -/
def soleOutline (name : String) : Outline := ⟨[⟨name, [⟨"v", ⟨.builtin .u8, .scalar⟩⟩]⟩], name⟩

def soleWords (name : String) : List String :=
  ["struct", name, "\x7b", "field", "v", "u8", "\x7d", "exports", name]

theorem spelling_sole (name : String) : (soleOutline name).Spelling (soleWords name) := by
  have hfield : Field.Spelling ⟨"v", ⟨.builtin .u8, .scalar⟩⟩ ["field", "v", "u8"] := .plain .scalar
  exact .intro (.cons (.intro (.cons hfield .nil)) .nil)

theorem not_refers_sole (source target : String) : ¬ (soleOutline name).Refers source target := by
  rintro ⟨d, hd, -, f, hf, ht⟩
  obtain rfl := List.mem_singleton.1 hd
  obtain rfl := List.mem_singleton.1 hf
  cases ht

theorem valid_sole (hname : Nameable name) (hbuiltin : Builtin.ofName? name = none) : (soleOutline name).Valid where
  nameable := by simpa [soleOutline] using hname
  not_builtin := by simpa [soleOutline] using hbuiltin
  nodup := by simp [soleOutline, Outline.names]
  fields_ne_nil := by simp [soleOutline]
  fields_nameable := by
    simp only [soleOutline, List.forall_mem_singleton]
    decide
  fields_nodup := by simp [soleOutline]
  declared := fun source target h => absurd h (not_refers_sole source target)
  sizes := by simp [soleOutline]
  acyclic := by
    intro name hcycle
    obtain ⟨next, hnext, -⟩ := Relation.TransGen.head'_iff.1 hcycle
    exact not_refers_sole _ _ hnext
  exported := by simp [soleOutline, Outline.names]
  unreferenced := fun source => not_refers_sole source _

/-- Any name that is none of a built-in type can be that of a struct. -/
theorem exists_accepted_sole (hname : Nameable name) (hbuiltin : Builtin.ofName? name = none) :
    ∃ s, ofText (String.ofList (Lexeme.spaced (soleWords name))) = .ok s ∧ s.outline = soleOutline name ∧
      ∃ t ∈ s.structs.values, t.name = name := by
  have hvalid := valid_sole hname hbuiltin
  obtain ⟨⟨ts⟩, hscan, hwords⟩ := TokenStream.scan_laidOut .nil (Lexeme.laidOut_spaced _ _)
    ((spelling_sole name).isKnownWord hvalid) ((spelling_sole name).keyword_of_head? hvalid)
  obtain ⟨hparse, houtline, -⟩ := parse_of_classified hvalid (hwords ▸ spelling_sole name)
    (TokenStream.classified_of_scan hscan)
  refine ⟨_, bind_eq_ok_iff.2 ⟨_, hscan, hparse⟩, houtline, ?_⟩
  have hmem : ⟨name, [⟨"v", ⟨.builtin .u8, .scalar⟩⟩]⟩ ∈
      (ofOutline (soleOutline name) (places ts)).outline.structs := by
    rw [houtline]
    exact List.mem_singleton_self _
  obtain ⟨t, ht, hdeclaration⟩ := List.mem_map.1 hmem
  exact ⟨t, ht, congrArg Declaration.name hdeclaration⟩

/-- No struct of an accepted schema is named like a built-in type of schemas or like a reserved word. -/
theorem names_of_ofText {source : String} {s : Schema} (h : ofText source = .ok s) :
    ∀ t ∈ s.structs.values, Builtin.ofName? t.name = none ∧ t.name ∉ Name.reservedWords := by
  obtain ⟨tokens, hscan, hparse⟩ := bind_eq_ok_iff.1 h
  have hvalid := valid_of_parse hscan hparse
  intro t ht
  have hmem : t.declaration ∈ s.outline.structs := List.mem_map_of_mem ht
  exact ⟨hvalid.not_builtin _ hmem, (hvalid.nameable _ hmem).1.unreserved⟩

end Schema

/-- Types of one shape are the same in Luau if their elements are. -/
theorem TypeRef.hostType_eq_iff {e e' : Element} {shape : Shape} :
    (⟨e, shape⟩ : TypeRef).hostType = (⟨e', shape⟩ : TypeRef).hostType ↔ e.hostType = e'.hostType := by
  constructor
  · intro h
    cases shape with
    | scalar => exact h
    | fixedArray | dynamicArray | map | shortMap =>
      exact (String.append_right_inj _).1 ((String.append_left_inj _).1 h)
  · intro h
    unfold hostType
    rw [h]

namespace Luau

variable {c : Config} {date : Timestamp} {source : String}

/-- The Luau types that modules have of their own. -/
def luauTypes : List String := "buffer" :: Builtin.all.map Builtin.hostType

theorem luauTypes_legible : ∀ name ∈ luauTypes, Text.IsIdentifier name.toList ∧ Nameable name ∧
    (Builtin.ofName? name = none ↔ name ≠ "string") := by
  decide

/-- How often a module declares a type: once if the exported struct or one that others refer to has its name. -/
theorem countP_declares_of_compile {s : Schema} {file : SourceFile} (h : Schema.ofText source = .ok s)
    (hfile : compile c date source = .ok file) (hc : c.Legible) {name : String}
    (hname : Text.IsIdentifier name.toList) :
    (Text.splitAt '\n' file.content).countP (Declares name ·) =
      if name ∈ s.helperOrder ∨ name = s.exports then 1 else 0 := by
  obtain ⟨tokens, -, hparse⟩ := bind_eq_ok_iff.1 h
  have hsound := Schema.sound_of_parse hparse
  have hnames : ∀ name t, s.structs.find? name = some t → t.Printable :=
    fun _ _ ht => Schema.printable_of_parse hparse ht
  obtain ⟨exported, hexported, hcompile⟩ : ∃ exported, s.exported? = some exported ∧ compile c date source =
      .ok ⟨fileName s, Template.codecModule.fill (slotContent c date s exported)⟩ := compile_of_ofText h
  obtain rfl := Except.ok.inj (hfile.symm.trans hcompile)
  have hexports : Text.OneLine s.exports := by
    rw [← hsound.indexed.name_of_find? hexported]
    exact Text.oneLine_of_isIdentifier (hnames _ _ hexported).name
  rw [splitAt_fill hc hexported hexports (hnames _ _ hexported) (printable_structsOf hnames s.helperOrder)]
  exact countP_declares hsound hexported (printable_moduleChunks hnames hexported) hname

/-- The types that a module has of its own, and the structs of an accepted schema. Each of these types but `string`
is the name of a struct of some schema. A field made of a struct has the type of a field made of a built-in type where
the struct has its name, and only there. The module declares such a type where the exported struct or one that others
refer to has its name, and only there. -/
theorem luauTypes_and_structs :
    (∀ name ∈ luauTypes, (∃ source s, Schema.ofText source = .ok s ∧ ∃ t ∈ s.structs.values, t.name = name) ↔
      name ≠ "string") ∧
    ∀ source s, Schema.ofText source = .ok s →
      (∀ t ∈ s.structs.values, Builtin.ofName? t.name = none ∧ t.name ∉ Name.reservedWords) ∧
      (∀ t ∈ s.structs.values, ∀ (b : Builtin) (shape : Shape),
        (⟨.struct t.name, shape⟩ : TypeRef).hostType = (⟨.builtin b, shape⟩ : TypeRef).hostType ↔
          t.name = b.hostType) ∧
      ∀ (c : Config) (date : Timestamp), c.Legible → ∃ file, compile c date source = .ok file ∧
        ∀ name ∈ luauTypes,
          ((name = s.exports ∨ ∃ referrer, s.outline.Refers referrer name) →
            (Text.splitAt '\n' file.content).countP (Declares name ·) = 1) ∧
          (¬ (name = s.exports ∨ ∃ referrer, s.outline.Refers referrer name) →
            (Text.splitAt '\n' file.content).countP (Declares name ·) = 0) := by
  refine ⟨fun name hname => ⟨?_, fun hne => ?_⟩, fun source s h => ⟨Schema.names_of_ofText h, fun t _ b shape =>
    TypeRef.hostType_eq_iff, fun c date hc => ?_⟩⟩
  · rintro ⟨source, s, h, t, ht, rfl⟩
    exact (luauTypes_legible t.name hname).2.2.1 (Schema.names_of_ofText h t ht).1
  · obtain ⟨-, hnameable, hbuiltin⟩ := luauTypes_legible name hname
    obtain ⟨s, hs, -, t, ht, hname⟩ := Schema.exists_accepted_sole hnameable (hbuiltin.2 hne)
    exact ⟨_, s, hs, t, ht, hname⟩
  · obtain ⟨exported, -, hcompile⟩ : ∃ exported, s.exported? = some exported ∧ compile c date source =
        .ok ⟨fileName s, Template.codecModule.fill (slotContent c date s exported)⟩ := compile_of_ofText h
    refine ⟨_, hcompile, fun name hname => ?_⟩
    obtain ⟨tokens, -, hparse⟩ := bind_eq_ok_iff.1 h
    have hdeclared : (name ∈ s.helperOrder ∨ name = s.exports) ↔
        (name = s.exports ∨ ∃ referrer, s.outline.Refers referrer name) := by
      rw [(Schema.sound_of_parse hparse).mem_helperOrder_iff]
      tauto
    rw [countP_declares_of_compile h hcompile hc (luauTypes_legible name hname).1, ← hdeclared]
    exact ⟨fun hd => if_pos hd, fun hd => if_neg hd⟩

theorem vector3_struct_declared :
    ∃ s file, Schema.ofText "struct Vector3 \x7b field v u8 \x7d exports Vector3" = .ok s ∧
      (∀ t ∈ s.structs.values, Builtin.ofName? t.name = none) ∧
      compile {} ⟨2024, 2, 29, 23, 59, 59⟩ "struct Vector3 \x7b field v u8 \x7d exports Vector3" = .ok file ∧
      (Text.splitAt '\n' file.content).countP (Declares "Vector3" ·) = 1 ∧
      (Text.splitAt '\n' file.content).countP (Declares "number" ·) = 0 ∧
      ∃ source' s', Schema.ofText source' = .ok s' ∧ ∃ t ∈ s'.structs.values, t.name = "number" := by
  obtain ⟨s, htext, houtline, -⟩ := Schema.exists_accepted_sole (by decide : Nameable "Vector3") (by decide)
  have hsource : String.ofList (Lexeme.spaced (Schema.soleWords "Vector3")) =
      "struct Vector3 \x7b field v u8 \x7d exports Vector3" := by decide
  rw [hsource] at htext
  obtain ⟨hnames, -, hmodule⟩ := luauTypes_and_structs.2 _ s htext
  obtain ⟨file, hfile, hdeclared⟩ := hmodule {} ⟨2024, 2, 29, 23, 59, 59⟩ Config.legible_default
  have hexports : s.exports = "Vector3" := congrArg Outline.exports houtline
  refine ⟨s, file, htext, fun t ht => (hnames t ht).1, hfile, (hdeclared "Vector3" (by decide)).1 (.inl hexports.symm),
    (hdeclared "number" (by decide)).2 ?_, (luauTypes_and_structs.1 "number" (by decide)).2 (by decide)⟩
  rintro (hname | ⟨referrer, hrefers⟩)
  · rw [hexports] at hname
    exact absurd hname (by decide)
  · rw [houtline] at hrefers
    exact Schema.not_refers_sole _ _ hrefers

/-- A struct that has the name of the Luau type of numbers is accepted. Fields made of it have the type of fields made
of numbers, and the module declares that type. -/
theorem number_struct_captures :
    ∃ s t file, Schema.ofText "struct number \x7b field v u8 \x7d exports number" = .ok s ∧ t ∈ s.structs.values ∧
      t.name = Builtin.u8.hostType ∧
      (⟨.struct t.name, .scalar⟩ : TypeRef).hostType = (⟨.builtin .u8, .scalar⟩ : TypeRef).hostType ∧
      compile {} ⟨2024, 2, 29, 23, 59, 59⟩ "struct number \x7b field v u8 \x7d exports number" = .ok file ∧
      (Text.splitAt '\n' file.content).countP (Declares "number" ·) = 1 := by
  obtain ⟨s, htext, houtline, t, ht, hname⟩ := Schema.exists_accepted_sole (by decide : Nameable "number") (by decide)
  have hsource : String.ofList (Lexeme.spaced (Schema.soleWords "number")) =
      "struct number \x7b field v u8 \x7d exports number" := by decide
  rw [hsource] at htext
  have hexports : s.exports = "number" := congrArg Outline.exports houtline
  obtain ⟨exported, -, hcompile⟩ : ∃ exported, s.exported? = some exported ∧
      compile {} ⟨2024, 2, 29, 23, 59, 59⟩ "struct number \x7b field v u8 \x7d exports number" =
        .ok ⟨fileName s, Template.codecModule.fill (slotContent {} ⟨2024, 2, 29, 23, 59, 59⟩ s exported)⟩ :=
    compile_of_ofText htext
  refine ⟨s, t, _, htext, ht, hname, TypeRef.hostType_eq_iff.2 hname, hcompile, ?_⟩
  rw [countP_declares_of_compile htext hcompile Config.legible_default (by decide), if_pos (.inr hexports.symm)]

end Luau

end BufferSchema
