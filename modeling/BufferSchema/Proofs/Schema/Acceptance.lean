import BufferSchema.Proofs.Schema.Marks
import BufferSchema.Proofs.Schema.Region
import BufferSchema.Proofs.Token.Classified
import BufferSchema.Schema.Reading

/-!
# What an accepted text looks like

A text that is accepted says what its schema says, word for word, from its first `struct` through the
name behind its only `exports`. Other words can stand around this region. They are not looked at.
-/

namespace BufferSchema

open Schema.Parser

/-- The tokens from the first `struct` through the token behind the first `exports` that follows. -/
def TokenStream.region (s : TokenStream) : List Token :=
  let rest := s.tokens.dropWhile (!·.isSpelled Keyword.struct.text)
  rest.takeWhile (!·.isSpelled Keyword.exports.text) ++
    (rest.dropWhile (!·.isSpelled Keyword.exports.text)).take 2

namespace Schema.Parser

/-- The tokens that are numbers consist of digits. -/
def Numeric (us : List Token) : Prop :=
  ∀ t ∈ us, t.kind = .int → t.lexeme.toList ≠ [] ∧ ∀ c ∈ t.lexeme.toList, c.isDigit = true

theorem Numeric.mono {us vs : List Token} (h : Numeric vs) (hsub : us ⊆ vs) : Numeric us :=
  fun t ht => h t (hsub ht)

/-! What the grammar of tokens lists is what can be written. -/

/-- The texts of the tokens of a type are one of its spellings. -/
theorem spelling_of_typeSyntax {type : TypeRef} {us : List Token} (h : TypeSyntax type us)
    (hnum : Numeric us) : type.Spelling (us.map (·.lexeme)) := by
  have hlexeme : ∀ {t : Token} {text : String}, t.isSpelled text = true → t.lexeme = text :=
    fun h => (Token.isSpelled_iff.1 h).2
  cases h with
  | @scalar t ht => simpa using TypeRef.Spelling.scalar (e := .ofName t.lexeme)
  | @fixedArray opening size closing t count hopen hsize hcount hclose ht =>
    obtain ⟨hne, hdigits⟩ := hnum size (by simp) hsize
    have hvalue : Nat.ofDigitChars 10 size.lexeme.toList 0 = count := by
      simp only [arraySize?, Option.ite_none_right_eq_some, Option.some.injEq] at hcount
      exact hcount.2
    simpa [hlexeme hopen, hlexeme hclose] using
      TypeRef.Spelling.fixedArray (e := .ofName t.lexeme) hne hdigits hvalue
  | @dynamicArray opening closing t hopen _ hclose ht =>
    simpa [hlexeme hopen, hlexeme hclose] using TypeRef.Spelling.dynamicArray (e := .ofName t.lexeme)
  | @map opening t closing word shape hopen ht hclose hword =>
    unfold mapShape? at hword
    split at hword
    · next hmap =>
      obtain rfl := Option.some.inj hword
      simpa [hlexeme hopen, hlexeme hclose, hlexeme hmap] using TypeRef.Spelling.map (e := .ofName t.lexeme)
    · split at hword
      · next hmap =>
        obtain rfl := Option.some.inj hword
        simpa [hlexeme hopen, hlexeme hclose, hlexeme hmap] using
          TypeRef.Spelling.shortMap (e := .ofName t.lexeme)
      · cases hword

theorem spelling_of_fieldSyntax {f : Field} {us : List Token} (h : FieldSyntax f us)
    (hnum : Numeric us) : f.Spelling (us.map (·.lexeme)) := by
  cases h with
  | @plain keyword name type us hkeyword _ _ htype =>
    have hwords := spelling_of_typeSyntax htype (hnum.mono (by simp))
    have h : Field.Spelling ⟨name.lexeme, type⟩ _ := .plain hwords
    simpa [Keyword.text, (Token.isSpelled_iff.1 hkeyword).2] using h
  | @colon keyword name colon type us hkeyword _ _ hcolon htype =>
    have hwords := spelling_of_typeSyntax htype (hnum.mono (by intro t ht; simp [ht]))
    have h : Field.Spelling ⟨name.lexeme, type⟩ _ := .colon hwords
    simpa [Keyword.text, (Token.isSpelled_iff.1 hkeyword).2, (Token.isSpelled_iff.1 hcolon).2] using h

theorem spellings_of_fieldSyntax {fs : List Field} {uss : List (List Token)}
    (h : List.Forall₂ FieldSyntax fs uss) (hnum : Numeric uss.flatten) :
    List.Forall₂ Field.Spelling fs (uss.map fun us => us.map (·.lexeme)) := by
  induction h with
  | nil => exact .nil
  | cons hus _ ih =>
    rw [List.flatten_cons] at hnum
    exact .cons (spelling_of_fieldSyntax hus (hnum.mono (List.subset_append_left _ _)))
      (ih (hnum.mono (List.subset_append_right _ _)))

theorem spelling_of_structSyntax {s : Struct} {us : List Token} (h : StructSyntax s us)
    (hnum : Numeric us) : s.declaration.Spelling (us.map (·.lexeme)) := by
  cases h with
  | @intro keyword name opening closing fs uss hkeyword _ _ _ hopen _ hfields _ hclose =>
    have hwords := spellings_of_fieldSyntax hfields (hnum.mono (by intro t ht; simp [List.mem_append, ht]))
    have h : Declaration.Spelling ⟨name.lexeme, fs⟩ _ := .intro hwords
    simpa [Struct.declaration, name_foldl_push, fields_foldl_push, Keyword.text,
      (Token.isSpelled_iff.1 hkeyword).2, (Token.isSpelled_iff.1 hopen).2, (Token.isSpelled_iff.1 hclose).2] using h

theorem spellings_of_structSyntax {ss : List Struct} {uss : List (List Token)}
    (h : List.Forall₂ StructSyntax ss uss) (hnum : Numeric uss.flatten) :
    List.Forall₂ Declaration.Spelling (ss.map Struct.declaration) (uss.map fun us => us.map (·.lexeme)) := by
  induction h with
  | nil => exact .nil
  | cons hus _ ih =>
    rw [List.flatten_cons] at hnum
    exact .cons (spelling_of_structSyntax hus (hnum.mono (List.subset_append_left _ _)))
      (ih (hnum.mono (List.subset_append_right _ _)))

/-- The texts of the tokens that define a schema are one of the spellings of its outline. -/
theorem spelling_of_regionSyntax {ss : List Struct} {name : String} {region : List Token}
    (h : RegionSyntax ss name region) (hnum : Numeric region) :
    Outline.Spelling ⟨ss.map Struct.declaration, name⟩ (region.map (·.lexeme)) := by
  cases h with
  | @intro uss keyword name _ hstructs hkeyword =>
    have hwords := spellings_of_structSyntax hstructs (hnum.mono (by intro t ht; simp [List.mem_append, ht]))
    have h : Outline.Spelling ⟨ss.map Struct.declaration, name.lexeme⟩ _ := .intro hwords
    simpa [Keyword.text, (Token.isSpelled_iff.1 hkeyword).2] using h

theorem outline_insertAll {ss : List Struct} (h : (ss.map (·.name)).Nodup) (name : String) :
    Schema.outline ⟨insertAll ∅ ss, name⟩ = ⟨ss.map Struct.declaration, name⟩ := by
  simp [Schema.outline, values_insertAll h]

theorem RegionSyntax.nodup {ss : List Struct} {name : String} {region : List Token}
    (h : RegionSyntax ss name region) : (ss.map (·.name)).Nodup := by
  cases h with
  | intro _ _ _ _ hnodup => exact hnodup

theorem RegionSyntax.ne_nil {ss : List Struct} {name : String} {region : List Token}
    (h : RegionSyntax ss name region) : ss ≠ [] := by
  cases h with
  | intro hss => exact hss

theorem RegionSyntax.exports_mem {ss : List Struct} {name : String} {region : List Token}
    (h : RegionSyntax ss name region) : name ∈ ss.map (·.name) := by
  cases h with
  | intro _ _ _ _ _ hmem => exact hmem

theorem RegionSyntax.structSyntax {ss : List Struct} {name : String} {region : List Token}
    (h : RegionSyntax ss name region) : ∀ s ∈ ss, ∃ us, StructSyntax s us := by
  cases h with
  | intro _ hstructs =>
    clear * - hstructs
    induction hstructs with
    | nil => simp
    | cons hus _ ih =>
      intro s hs
      rcases List.mem_cons.1 hs with rfl | hs
      · exact ⟨_, hus⟩
      · exact ih s hs

/-- The region of a stream is found where the grammar puts it. -/
theorem region_of_regionSyntax {before region after : List Token} {ss : List Struct} {name : String}
    (hreg : ∀ t ∈ region, t.Regular) (h : RegionSyntax ss name region) (hbefore : ∀ t ∈ before, t.Outside) :
    TokenStream.region ⟨before ++ (region ++ after)⟩ = region := by
  cases h with
  | @intro uss keyword name hss hgrammar hkeyword hkind hnodup hmem =>
    have huss := no_exports_in_structs hgrammar fun t ht => hreg t (by simp [ht])
    obtain ⟨opening, us, hflat, hopening⟩ := flatten_eq_keyword_cons hss hgrammar
    have hfront : ∀ t ∈ before, (!t.isSpelled Keyword.struct.text) = true := by
      intro t ht
      simp [(hbefore t ht).1]
    have hinside : ∀ t ∈ uss.flatten, (!t.isSpelled Keyword.exports.text) = true := by
      intro t ht
      simp [huss t ht]
    have hstart : (before ++ (uss.flatten ++ [keyword, name] ++ after)).dropWhile
        (!·.isSpelled Keyword.struct.text) = uss.flatten ++ keyword :: name :: after := by
      rw [List.dropWhile_append_of_pos hfront, hflat]
      simp [hopening]
    unfold TokenStream.region
    simp only [hstart]
    rw [List.takeWhile_append_of_pos hinside, List.dropWhile_append_of_pos hinside]
    simp [hkeyword]

end Schema.Parser

namespace Schema

/-- A text is parsed if it is read and its references pass. The schema then has its marks. -/
theorem parse_eq_ok_iff {tokens : TokenStream} {s : Schema} :
    (parse tokens).result = .ok s ↔
      ∃ read, ofTokens tokens = .ok read ∧ read.markReferences.verdict = .ok () ∧ s = read.markReferences := by
  simp only [parse, analyze, Logged.result_bind, Logged.result_ofExcept, Logged.result_tell, Logged.result_pure]
  constructor
  · intro h
    obtain ⟨read, hread, h⟩ := bind_eq_ok_iff.1 h
    obtain ⟨⟨⟩, hverdict, h⟩ := bind_eq_ok_iff.1 h
    exact ⟨read, hread, hverdict, (Except.ok.inj h).symm⟩
  · rintro ⟨read, hread, hverdict, rfl⟩
    rw [hread]
    simp only [bind, Except.bind, hverdict]

variable {source : String} {tokens : TokenStream} {s : Schema}

theorem regular_of_scan (hscan : (TokenStream.scan source).result = .ok tokens) :
    ∀ t ∈ tokens.tokens, t.Regular :=
  (TokenStream.classified_of_scan hscan).regular

/-- An accepted schema is the marked table of the structs in the region. -/
theorem regionSyntax_of_parse (hscan : (TokenStream.scan source).result = .ok tokens)
    (hparse : (parse tokens).result = .ok s) :
    ∃ before ss after, tokens.tokens = before ++ (tokens.region ++ after) ∧
      RegionSyntax ss s.exports tokens.region ∧ s = markReferences ⟨insertAll ∅ ss, s.exports⟩ ∧
      (∀ t ∈ before, t.Outside) ∧ (∀ t ∈ after, t.Outside) := by
  obtain ⟨read, hread, -, rfl⟩ := parse_eq_ok_iff.1 hparse
  obtain ⟨ts⟩ := tokens
  obtain ⟨before, ss, region, after, rfl, hregion, hstructs, hbefore, hafter⟩ := region_of_ofTokens hread
  have hreg := regular_of_scan hscan
  have hfound : TokenStream.region ⟨before ++ (region ++ after)⟩ = region :=
    region_of_regionSyntax (fun t ht => hreg t (by simp [ht])) hregion hbefore
  rw [hfound]
  refine ⟨before, ss, after, rfl, hregion, ?_, hbefore, hafter⟩
  rw [← hstructs]
  rfl

theorem numeric_region {before after : List Token} (hscan : (TokenStream.scan source).result = .ok tokens)
    (hsplit : tokens.tokens = before ++ (tokens.region ++ after)) : Numeric tokens.region := by
  have hnum : Numeric tokens.tokens := (TokenStream.classified_of_scan hscan).digits_of_int
  apply hnum.mono
  intro t ht
  rw [hsplit]
  simp [ht]

theorem spelling_of_region {before after : List Token} {ss : List Struct}
    (hscan : (TokenStream.scan source).result = .ok tokens)
    (hsplit : tokens.tokens = before ++ (tokens.region ++ after))
    (hregion : RegionSyntax ss s.exports tokens.region)
    (hs : s = markReferences ⟨insertAll ∅ ss, s.exports⟩) :
    s.outline.Spelling (tokens.region.map (·.lexeme)) := by
  rw [hs, outline_markReferences, outline_insertAll hregion.nodup]
  exact spelling_of_regionSyntax hregion (numeric_region hscan hsplit)

/-- From its first `struct` through the name behind its only `exports`, an accepted text says the outline of
its schema, word for word. Neither keyword occurs outside. -/
theorem region_spells_outline (hscan : (TokenStream.scan source).result = .ok tokens)
    (hparse : (parse tokens).result = .ok s) :
    (∃ before after, tokens.tokens = before ++ (tokens.region ++ after) ∧ (∀ t ∈ before, t.Outside) ∧
      (∀ t ∈ after, t.Outside)) ∧
    tokens.tokens.countP (·.isSpelled Keyword.exports.text) = 1 ∧
    s.outline.Spelling (tokens.region.map (·.lexeme)) ∧ s.outline.structs ≠ [] ∧
    s.structs.keys = s.outline.names := by
  obtain ⟨before, ss, after, hsplit, hregion, hs, hbefore, hafter⟩ := regionSyntax_of_parse hscan hparse
  refine ⟨⟨before, after, hsplit, hbefore, hafter⟩, ?_, spelling_of_region hscan hsplit hregion hs, ?_, ?_⟩
  · obtain ⟨read, hread, -, -⟩ := parse_eq_ok_iff.1 hparse
    obtain ⟨name, table, hname, -⟩ := ofTokens_eq_ok_iff.1 hread
    exact (exportedName_eq_ok_iff.1 hname).1
  · rw [hs, outline_markReferences, outline_insertAll hregion.nodup]
    simpa using hregion.ne_nil
  · rw [hs, outline_markReferences, outline_insertAll hregion.nodup, keys_markReferences,
      keys_insertAll hregion.nodup]
    simp [Outline.names, Struct.declaration, Function.comp_def]

/-- The schema of an accepted text is that of its region alone: with any other tokens around it, as long as neither
keyword is among them, the schema is the same. -/
theorem surroundings_ignored (hscan : (TokenStream.scan source).result = .ok tokens)
    (hparse : (parse tokens).result = .ok s) {before after : List Token} (hbefore : ∀ t ∈ before, t.Outside)
    (hafter : ∀ t ∈ after, t.Outside) : (parse ⟨before ++ (tokens.region ++ after)⟩).result = .ok s := by
  obtain ⟨front, ss, behind, hsplit, hregion, hs, hfront, hbehind⟩ := regionSyntax_of_parse hscan hparse
  have hreg : ∀ t ∈ tokens.region, t.Regular := by
    intro t ht
    apply regular_of_scan hscan t
    rw [hsplit]
    simp [ht]
  obtain ⟨read, hread, hverdict, -⟩ := parse_eq_ok_iff.1 hparse
  -- Both streams are read to one table, so the verdict on it is the same.
  have hsame : read = ⟨insertAll ∅ ss, s.exports⟩ := by
    have := ofTokens_of_region hreg hregion hfront hbehind
    rw [← hsplit] at this
    exact Except.ok.inj (hread.symm.trans this)
  exact parse_eq_ok_iff.2 ⟨_, ofTokens_of_region hreg hregion hbefore hafter, hsame ▸ hverdict, hs⟩

/-- An accepted text is read through the name that it exports and no further: whatever tokens stand behind that
name, as long as neither keyword is among them, the schema is the same. -/
theorem ending_ignored (hscan : (TokenStream.scan source).result = .ok tokens)
    (hparse : (parse tokens).result = .ok s) :
    ∃ before after, tokens.tokens = before ++ (tokens.region ++ after) ∧
      s.outline.Spelling (tokens.region.map (·.lexeme)) ∧ (∀ t ∈ before, t.Outside) ∧
      (∀ t ∈ after, t.Outside) ∧
      ∀ after' : List Token, (∀ t ∈ after', t.Outside) →
        (parse ⟨before ++ (tokens.region ++ after')⟩).result = .ok s := by
  obtain ⟨before, ss, after, hsplit, hregion, hs, hbefore, hafter⟩ := regionSyntax_of_parse hscan hparse
  exact ⟨before, after, hsplit, spelling_of_region hscan hsplit hregion hs, hbefore, hafter,
    fun after' hafter' => surroundings_ignored hscan hparse hbefore hafter'⟩

/-- What can be relied on when a schema has been accepted. -/
structure WellFormed (s : Schema) : Prop where
  indexed : s.Indexed
  buildable : ∀ name ∈ s.structs, s.Buildable name
  fields_nodup : ∀ name t, s.structs.find? name = some t → (t.fields.map (·.name)).Nodup

theorem checkAcyclic_of_verdict (h : s.verdict = .ok ()) : s.checkAcyclic = .ok () := by
  unfold verdict at h
  split at h
  · split at h
    · cases h
    · exact h
  · exact h

theorem indexed_of_structSyntax {t : Struct} {us : List Token} (h : StructSyntax t us) :
    t.Indexed ∧ (t.fields.map (·.name)).Nodup := by
  cases h with
  | intro _ _ _ _ _ _ _ hnodup =>
    refine ⟨Struct.indexed_foldl_push _ fun target => by simp [Table.mem_iff], ?_⟩
    simpa [fields_foldl_push] using hnodup

/-- The structs that are read stand under their own names, each as its text has it, and the exported name is one
of theirs. -/
theorem structSyntax_of_ofTokens {read : Schema} (h : ofTokens tokens = .ok read) :
    read.exports ∈ read.structs ∧ ∀ e ∈ read.structs.entries, e.1 = e.2.name ∧ ∃ us, StructSyntax e.2 us := by
  obtain ⟨ts⟩ := tokens
  obtain ⟨_, ss, _, _, -, hregion, hstructs, -⟩ := region_of_ofTokens h
  have hentries : read.structs.entries = [] ++ ss.map fun t => (t.name, t) := by
    rw [hstructs]
    exact entries_insertAll (by simpa using hregion.nodup)
  constructor
  · rw [Table.mem_iff, hstructs, keys_insertAll hregion.nodup]
    exact hregion.exports_mem
  · intro e he
    rw [hentries, List.nil_append] at he
    obtain ⟨t, ht, rfl⟩ := List.mem_map.1 he
    exact ⟨rfl, hregion.structSyntax t ht⟩

theorem wellFormed_of_parse (hparse : (parse tokens).result = .ok s) : s.WellFormed := by
  obtain ⟨read, hread, hverdict, rfl⟩ := parse_eq_ok_iff.1 hparse
  have hgood : ∀ e ∈ read.structs.entries, e.1 = e.2.name ∧ e.2.Indexed ∧ (e.2.fields.map (·.name)).Nodup := by
    intro e he
    obtain ⟨hname, us, hus⟩ := (structSyntax_of_ofTokens hread).2 e he
    exact ⟨hname, indexed_of_structSyntax hus⟩
  refine ⟨Indexed.markReferences fun e he => ⟨(hgood e he).1, (hgood e he).2.1⟩,
    checkAcyclic_eq_ok_iff.1 (checkAcyclic_of_verdict hverdict), fun name t ht => ?_⟩
  rw [find?_markReferences, Option.map_eq_some_iff] at ht
  obtain ⟨t, ht, rfl⟩ := ht
  rw [Struct.fields_markAll]
  exact (hgood _ (Table.find?_eq_some_iff.1 ht)).2.2

/-! A text with one token in front of its region and one behind it. -/

def strayTokens : TokenStream :=
  ⟨[⟨0, .keyword .field, "field", ⟨1, 1⟩⟩, ⟨1, .keyword .struct, "struct", ⟨1, 7⟩⟩,
    ⟨2, .name .struct, "A", ⟨1, 14⟩⟩, ⟨3, .operator, "\x7b", ⟨1, 16⟩⟩, ⟨4, .keyword .field, "field", ⟨1, 18⟩⟩,
    ⟨5, .name .field, "x", ⟨1, 24⟩⟩, ⟨6, .typeName, "u8", ⟨1, 26⟩⟩, ⟨7, .operator, "\x7d", ⟨1, 29⟩⟩,
    ⟨8, .keyword .exports, "exports", ⟨1, 31⟩⟩, ⟨9, .name .exports, "A", ⟨1, 39⟩⟩,
    ⟨10, .typeName, "u8", ⟨1, 41⟩⟩]⟩

def strayStruct : Struct :=
  ({ name := "A", position := ⟨1, 7⟩ } : Struct).push ⟨"x", ⟨.ofName "u8", .scalar⟩⟩

theorem scan_stray :
    (TokenStream.scan "field struct A \x7b field x u8 \x7d exports A u8").result = .ok strayTokens := by
  decide +kernel

theorem regionSyntax_stray : RegionSyntax [strayStruct] "A" ((strayTokens.tokens.drop 1).take 9) := by
  have hx : Name.Faultless "x" := Name.fault?_eq_none_iff.1 (by decide)
  have hu8 : Name.Faultless "u8" := Name.fault?_eq_none_iff.1 (by decide)
  have hA : Name.Faultless "A" := Name.fault?_eq_none_iff.1 (by decide)
  have hfield := @FieldSyntax.plain (strayTokens.get 4) (strayTokens.get 5) _ _ rfl hx rfl
    (@TypeSyntax.scalar (strayTokens.get 6) ⟨hu8, rfl⟩)
  have hstruct := @StructSyntax.intro (strayTokens.get 1) (strayTokens.get 2) (strayTokens.get 3)
    (strayTokens.get 7) _ _ rfl hA rfl rfl rfl (by simp) (.cons hfield .nil) (by simp) rfl
  exact @RegionSyntax.intro _ _ (strayTokens.get 8) (strayTokens.get 9) (by simp) (.cons hstruct .nil) rfl rfl
    (by simp) (by simp; rfl)

theorem parse_stray : (parse strayTokens).result = .ok (markReferences ⟨insertAll ∅ [strayStruct], "A"⟩) := by
  have hreg : ∀ t ∈ (strayTokens.tokens.drop 1).take 9, t.Regular := by
    intro t ht
    exact regular_of_scan scan_stray t (List.mem_of_mem_drop (List.mem_of_mem_take ht))
  have hread := @ofTokens_of_region [strayTokens.get 0] _ [strayTokens.get 10] _ _ hreg regionSyntax_stray
    (by simp [Token.Outside]; decide) (by simp [Token.Outside]; decide)
  have hsound : (markReferences ⟨insertAll ∅ [strayStruct], "A"⟩).checkAcyclic = .ok () := by
    rw [checkAcyclic_eq_ok_iff]
    intro name hname
    obtain rfl : name = "A" := List.mem_singleton.1 hname
    apply Buildable.intro hname
    intro target htarget
    cases htarget
  exact parse_eq_ok_iff.2 ⟨_, hread, hsound, rfl⟩

theorem stray_region_spells_outline :
    (TokenStream.scan "field struct A \x7b field x u8 \x7d exports A u8").result = .ok strayTokens ∧
    (parse strayTokens).result = .ok (markReferences ⟨insertAll ∅ [strayStruct], "A"⟩) ∧
    Outline.Spelling (markReferences ⟨insertAll ∅ [strayStruct], "A"⟩).outline
      (strayTokens.region.map (·.lexeme)) :=
  ⟨scan_stray, parse_stray, (region_spells_outline scan_stray parse_stray).2.2.1⟩

theorem stray_ending_ignored :
    (TokenStream.scan "field struct A \x7b field x u8 \x7d exports A u8").result = .ok strayTokens ∧
    (parse strayTokens).result = .ok (markReferences ⟨insertAll ∅ [strayStruct], "A"⟩) ∧
    ∃ before, (parse ⟨before ++ (strayTokens.region ++ [])⟩).result =
      .ok (markReferences ⟨insertAll ∅ [strayStruct], "A"⟩) := by
  obtain ⟨before, _, _, _, _, _, hother⟩ := ending_ignored scan_stray parse_stray
  exact ⟨scan_stray, parse_stray, before, hother [] (by simp)⟩

/-- A text can be accepted though its first token is no `struct` and its last token is not what it exports. -/
theorem leftover_tokens_accepted :
    ∃ tokens s, (TokenStream.scan "field struct A \x7b field x u8 \x7d exports A u8").result = .ok tokens ∧
      (parse tokens).result = .ok s ∧ tokens.tokens.head?.map (·.lexeme) ≠ some Keyword.struct.text ∧
      tokens.tokens.getLast?.map (·.lexeme) ≠ some s.exports :=
  ⟨strayTokens, _, scan_stray, parse_stray, by decide, by decide⟩

end Schema

end BufferSchema
