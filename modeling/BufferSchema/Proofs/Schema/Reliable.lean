import BufferSchema.Proofs.Schema.Reading

/-!
# What can be relied on in an accepted schema

The names and numbers of a schema are put into the module as they are, without another look. So all that the
module needs of them must hold once the schema is accepted: the outline is valid, every struct stands under its own
name, and the marks say exactly who refers to whom.
-/

namespace BufferSchema

open Schema.Parser
open Outline (Nameable)

/-! The tokens of names are no keywords. -/

namespace Schema.Parser

theorem nameable_of_regular {t : Token} (h : Name.Faultless t.lexeme) (hreg : t.Regular)
    (hkind : ∀ k, t.kind ≠ .keyword k) : Nameable t.lexeme :=
  ⟨h, fun k hk => hkind k (hreg k hk)⟩

theorem nameable_of_namesType {t : Token} (h : NamesType t) (hreg : t.Regular) : Nameable t.lexeme :=
  nameable_of_regular h.faultless hreg fun k => by simp [h.kind]

/-- The size of an array is a 64-bit number, and not zero. -/
theorem bounds_of_arraySize? {digits : String} {count : Nat} (h : arraySize? digits = some count) :
    1 ≤ count ∧ count ≤ 2 ^ 64 - 1 := by
  obtain ⟨⟨hpos, hle⟩, hcount⟩ := Option.ite_none_right_eq_some.1 h
  obtain rfl := Option.some.inj hcount
  simp only [maxArraySize] at hle
  omega

/-- A type with the name of its element, in a shape whose size is no more than an array can have. -/
theorem legible_ofName {name : String} {shape : Shape} (h : Nameable name)
    (hsize : ∀ count, shape = .fixedArray count → 1 ≤ count ∧ count ≤ 2 ^ 64 - 1) :
    TypeRef.Legible ⟨.ofName name, shape⟩ := by
  refine ⟨?_, ?_, hsize⟩
  · rw [Element.name_ofName]
    exact h
  · rw [Element.name_ofName]

/-- A type of a scanned text has an element that can be named and a size within bounds. -/
theorem legible_of_typeSyntax {type : TypeRef} {us : List Token} (h : TypeSyntax type us)
    (hreg : ∀ t ∈ us, t.Regular) : type.Legible := by
  cases h with
  | @scalar t ht => exact legible_ofName (nameable_of_namesType ht (hreg t (by simp))) (by simp)
  | @fixedArray _ _ _ t count _ _ hcount _ ht =>
    refine legible_ofName (nameable_of_namesType ht (hreg t (by simp))) fun n hn => ?_
    obtain rfl : count = n := by simpa using hn
    exact bounds_of_arraySize? hcount
  | @dynamicArray _ _ t _ _ _ ht =>
    exact legible_ofName (nameable_of_namesType ht (hreg t (by simp))) (by simp)
  | @map _ t _ _ shape _ ht _ hword =>
    refine legible_ofName (nameable_of_namesType ht (hreg t (by simp))) fun n hn => ?_
    rw [hn] at hword
    unfold mapShape? at hword
    split at hword
    · cases hword
    · split at hword <;> cases hword

theorem legible_of_fieldSyntax {f : Field} {us : List Token} (h : FieldSyntax f us)
    (hreg : ∀ t ∈ us, t.Regular) : Nameable f.name ∧ f.type.Legible := by
  cases h with
  | @plain _ name type us _ hname hkind htype =>
    have hnameable := nameable_of_regular hname (hreg name (by simp)) (by simp [hkind])
    exact ⟨hnameable, legible_of_typeSyntax htype fun t ht => hreg t (by simp [ht])⟩
  | @colon _ name _ type us _ hname hkind _ htype =>
    have hnameable := nameable_of_regular hname (hreg name (by simp)) (by simp [hkind])
    exact ⟨hnameable, legible_of_typeSyntax htype fun t ht => hreg t (by simp [ht])⟩

theorem legible_of_fieldSyntaxes {fs : List Field} {uss : List (List Token)}
    (h : List.Forall₂ FieldSyntax fs uss) (hreg : ∀ t ∈ uss.flatten, t.Regular) :
    ∀ f ∈ fs, Nameable f.name ∧ f.type.Legible := by
  induction h with
  | nil => simp
  | cons hus _ ih =>
    rw [List.flatten_cons, List.forall_mem_append] at hreg
    exact List.forall_mem_cons.2 ⟨legible_of_fieldSyntax hus hreg.1, ih hreg.2⟩

theorem legible_of_structSyntax {t : Struct} {us : List Token} (h : StructSyntax t us)
    (hreg : ∀ t ∈ us, t.Regular) : t.declaration.Legible := by
  cases h with
  | @intro _ name _ _ fs uss _ hname hkind hbuiltin _ hne hfields hnodup _ =>
    have hnameable := nameable_of_regular hname (hreg name (by simp)) (by simp [hkind])
    have hall := legible_of_fieldSyntaxes hfields fun t ht => hreg t (by simp [ht])
    rw [Struct.declaration, name_foldl_push, fields_foldl_push, List.nil_append]
    exact ⟨hnameable, hbuiltin, hne, fun f hf => (hall f hf).1, fun f hf => (hall f hf).2, hnodup⟩

theorem legible_of_structSyntaxes {ss : List Struct} {uss : List (List Token)}
    (h : List.Forall₂ StructSyntax ss uss) (hreg : ∀ t ∈ uss.flatten, t.Regular) :
    ∀ t ∈ ss, t.declaration.Legible := by
  induction h with
  | nil => simp
  | cons hus _ ih =>
    rw [List.flatten_cons, List.forall_mem_append] at hreg
    exact List.forall_mem_cons.2 ⟨legible_of_structSyntax hus hreg.1, ih hreg.2⟩

/-- In the part of a text that defines a schema, all names and sizes are within bounds. -/
theorem RegionSyntax.legible {ss : List Struct} {name : String} {region : List Token}
    (h : RegionSyntax ss name region) (hreg : ∀ t ∈ region, t.Regular) : ∀ t ∈ ss, t.declaration.Legible := by
  cases h with
  | intro _ hstructs => exact legible_of_structSyntaxes hstructs fun t ht => hreg t (by simp [ht])

end Schema.Parser

/-! The outline of an accepted schema. -/

namespace Schema

variable {source : String} {tokens : TokenStream} {s : Schema}

theorem Indexed.mem_names_iff (h : s.Indexed) {name : String} : name ∈ s.outline.names ↔ name ∈ s.structs := by
  rw [Table.mem_iff, h.named.keys_eq, Outline.names, outline, List.map_map]
  rfl

/-- Only valid outlines are accepted. -/
theorem valid_of_parse (hscan : (TokenStream.scan source).result = .ok tokens)
    (hparse : (parse tokens).result = .ok s) : s.outline.Valid := by
  obtain ⟨before, ss, after, hsplit, hregion, hs, -, -⟩ := regionSyntax_of_parse hscan hparse
  have hsound := sound_of_parse hparse
  have hmem : ∀ name, name ∈ s.outline.names ↔ name ∈ s.structs := fun _ => hsound.indexed.mem_names_iff
  have houtline : s.outline.structs = ss.map Struct.declaration := by
    rw [hs, outline_markReferences, outline_insertAll hregion.nodup]
  have hlegible : ∀ d ∈ s.outline.structs, d.Legible := by
    rw [houtline, List.forall_mem_map]
    refine hregion.legible fun t ht => regular_of_scan hscan t ?_
    rw [hsplit]
    simp [ht]
  refine
    { nameable := fun d hd => (hlegible d hd).nameable
      not_builtin := fun d hd => (hlegible d hd).not_builtin
      nodup := ?_
      fields_ne_nil := fun d hd => (hlegible d hd).fields_ne_nil
      fields_nameable := fun d hd => (hlegible d hd).fields_nameable
      fields_nodup := fun d hd => (hlegible d hd).fields_nodup
      declared := fun source target ht => (hmem _).2 (hsound.declared source target ht)
      sizes := fun d hd f hf => ((hlegible d hd).fields_legible f hf).size
      acyclic := hsound.acyclic
      exported := (hmem _).2 hsound.exported
      unreferenced := hsound.unreferenced }
  rw [Outline.names, houtline, List.map_map]
  exact hregion.nodup

theorem faultless_exports {source : String} {s : Schema} (h : ofText source = .ok s) : Name.Faultless s.exports := by
  obtain ⟨tokens, hscan, hparse⟩ := bind_eq_ok_iff.1 h
  have hvalid := valid_of_parse hscan hparse
  obtain ⟨d, hd, hname⟩ := List.mem_map.1 hvalid.exported
  have hexports : d.name = s.exports := hname
  exact hexports ▸ (hvalid.nameable d hd).1

end Schema

/-! The marks of an accepted schema. -/

namespace Schema

variable {s : Schema}

theorem Unmarked.find?_referencedBy (h : s.Unmarked) {name : String} {t : Struct}
    (ht : s.markReferences.structs.find? name = some t) (source : String) :
    t.referencedBy.find? source = if s.outline.Refers source name then some 1 else none := by
  rw [find?_markReferences, Option.map_eq_some_iff] at ht
  obtain ⟨t, ht, rfl⟩ := ht
  have hempty : t.referencedBy.find? source = none := by
    rw [(h _ (Table.find?_eq_some_iff.1 ht)).2.referencedBy]
    rfl
  rw [h.indexed.named.find?_referencedBy, hempty]
  simp only [h.indexed.refersTo_eq, Option.getD_none, Nat.zero_add]

/-- What can be relied on when a module is made of a schema. -/
structure Reliable (s : Schema) : Prop where
  exported : s.exports ∈ s.structs
  name_eq : ∀ name t, s.structs.find? name = some t → t.name = name
  nameable : ∀ t ∈ s.structs.values, Nameable t.name
  not_builtin : ∀ t ∈ s.structs.values, Builtin.ofName? t.name = none
  fields_ne_nil : ∀ t ∈ s.structs.values, t.fields ≠ []
  fields_nodup : ∀ t ∈ s.structs.values, (t.fields.map (·.name)).Nodup
  fields_nameable : ∀ t ∈ s.structs.values, ∀ f ∈ t.fields, Nameable f.name
  elements_nameable : ∀ t ∈ s.structs.values, ∀ f ∈ t.fields, Nameable f.type.element.name
  sizes : ∀ t ∈ s.structs.values, ∀ f ∈ t.fields, ∀ count, f.type.shape = .fixedArray count →
    1 ≤ count ∧ count ≤ 2 ^ 64 - 1
  declared : ∀ t ∈ s.structs.values, ∀ f ∈ t.fields, ∀ target, f.type.element.structName? = some target →
    target ∈ s.structs
  /-- A struct is marked once by each struct that has a field made of it, and by no other. -/
  referencedBy : ∀ name t, s.structs.find? name = some t → ∀ source,
    t.referencedBy.find? source = if s.outline.Refers source name then some 1 else none
  everReferenced : ∀ name t, s.structs.find? name = some t →
    (t.everReferenced = true ↔ ∃ source, s.outline.Refers source name)
  unreferenced : ∀ t, s.exported? = some t → t.everReferenced = false

theorem find?_referencedBy_of_parse {tokens : TokenStream} (hparse : (parse tokens).result = .ok s) {name : String}
    {t : Struct} (ht : s.structs.find? name = some t) (source : String) :
    t.referencedBy.find? source = if s.outline.Refers source name then some 1 else none := by
  obtain ⟨read, hread, -, rfl⟩ := parse_eq_ok_iff.1 hparse
  rw [outline_markReferences]
  exact (unmarked_of_ofTokens hread).1.find?_referencedBy ht source

/-- Whatever text is accepted: its schema can be relied on. -/
theorem reliable_of_ofText {source : String} (h : ofText source = .ok s) : s.Reliable := by
  obtain ⟨tokens, hscan, hparse⟩ := bind_eq_ok_iff.1 h
  have hsound := sound_of_parse hparse
  have hvalid := valid_of_parse hscan hparse
  have hmem : ∀ t ∈ s.structs.values, t.declaration ∈ s.outline.structs := fun t ht => List.mem_map_of_mem ht
  refine
    { exported := hsound.exported
      name_eq := fun name t ht => (hsound.indexed _ (Table.find?_eq_some_iff.1 ht)).1.symm
      nameable := fun t ht => hvalid.nameable _ (hmem t ht)
      not_builtin := fun t ht => hvalid.not_builtin _ (hmem t ht)
      fields_ne_nil := fun t ht => hvalid.fields_ne_nil _ (hmem t ht)
      fields_nodup := fun t ht => hvalid.fields_nodup _ (hmem t ht)
      fields_nameable := fun t ht => hvalid.fields_nameable _ (hmem t ht)
      elements_nameable := fun t ht f hf => (hvalid.legible (hmem t ht) hf).nameable
      sizes := fun t ht => hvalid.sizes _ (hmem t ht)
      declared := fun t ht f hf target htarget => ?_
      referencedBy := fun name t ht => find?_referencedBy_of_parse hparse ht
      everReferenced := hsound.everReferenced_iff
      unreferenced := fun t ht => ?_ }
  · exact hsound.declared t.name target ⟨_, hmem t ht, rfl, f, hf, htarget⟩
  · rw [Bool.eq_false_iff, ne_eq, hsound.everReferenced_iff _ t ht]
    rintro ⟨source, hsource⟩
    exact hsound.unreferenced source hsource

theorem pair_reliable :
    ∃ s t, ofText "struct A \x7b field map : u8 \x7d struct B \x7b field cursor [ 007 ] A \x7d exports B" = .ok s ∧
      s.structs.find? "A" = some t ∧ t.referencedBy.find? "B" = some 1 ∧ t.referencedBy.find? "A" = none ∧
      Nameable "cursor" := by
  obtain ⟨tokens, s, hscan, hparse, houtline⟩ := exists_accepted_pair
  have htext : ofText _ = .ok s := bind_eq_ok_iff.2 ⟨tokens, hscan, hparse⟩
  have hreliable := reliable_of_ofText htext
  have hrefers : s.outline.Refers "B" "A" ∧ ¬ s.outline.Refers "A" "A" := by
    rw [houtline]
    decide
  obtain ⟨b, hb, f, hf, hname, htarget⟩ : ∃ b ∈ s.structs.values, ∃ f ∈ b.fields, f.name = "cursor" ∧
      f.type.element.structName? = some "A" := by
    have hpair : ∃ d ∈ s.outline.structs, ∃ f ∈ d.fields, f.name = "cursor" ∧
        f.type.element.structName? = some "A" := by
      rw [houtline]
      decide
    obtain ⟨d, hd, hfield⟩ := hpair
    obtain ⟨b, hb, rfl⟩ := List.mem_map.1 hd
    exact ⟨b, hb, hfield⟩
  obtain ⟨t, ht⟩ := Table.exists_find?_of_mem (hreliable.declared b hb f hf "A" htarget)
  refine ⟨s, t, htext, ht, ?_, ?_, ?_⟩
  · rw [hreliable.referencedBy "A" t ht, if_pos hrefers.1]
  · rw [hreliable.referencedBy "A" t ht, if_neg hrefers.2]
  · exact hname ▸ hreliable.fields_nameable b hb f hf

end Schema

end BufferSchema
