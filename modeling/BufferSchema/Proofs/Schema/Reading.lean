import BufferSchema.Proofs.Schema.Verdict
import BufferSchema.Proofs.Token.Known

/-!
# Every valid outline can be written and read

Whatever way an outline is written in, and whatever gaps stand between the words: if it is valid, the text
is accepted and gives back the outline.
-/

namespace BufferSchema

open Schema.Parser
open Token (Classified)
open Outline (Nameable)

namespace Schema

/-- A schema with a valid outline passes the analysis. -/
theorem verdict_markReferences {s : Schema} (hunmarked : s.Unmarked) (hvalid : s.outline.Valid)
    (hkeys : s.structs.keys = s.outline.names) : s.markReferences.verdict = .ok () := by
  have hmem : ∀ name, name ∈ s.structs ↔ name ∈ s.outline.names := by
    intro name
    rw [Table.mem_iff, hkeys]
  refine (hunmarked.verdict_eq_ok_iff ((hmem _).2 hvalid.exported)).2
    ⟨hvalid.unreferenced, fun source target ht => (hmem _).2 (hvalid.declared source target ht), hvalid.acyclic⟩

end Schema

/-! The words of a spelling are words that the language knows. -/

/-- A mark of the grammar, an identifier or a number. -/
def IsKnownWord (w : String) : Prop :=
  w ∈ Token.operators ∨ Lexeme.Word .identifier w.toList ∨ Lexeme.Word .int w.toList

theorem isKnownWord_keyword (k : Keyword) : IsKnownWord k.text := .inr (.inl (Token.word_keyword k))

theorem Outline.Nameable.isKnownWord {name : String} (h : Nameable name) : IsKnownWord name :=
  .inr (.inl (.identifier h.1.identifier))

theorem TypeRef.Spelling.isKnownWord {type : TypeRef} {ws : List String} (h : type.Spelling ws)
    (htype : type.Legible) : ∀ w ∈ ws, IsKnownWord w := by
  have helement := htype.nameable.isKnownWord
  have hbracket : IsKnownWord "[" ∧ IsKnownWord "]" := ⟨.inl (by decide), .inl (by decide)⟩
  have hbrace : IsKnownWord "\x7b" ∧ IsKnownWord "\x7d" := ⟨.inl (by decide), .inl (by decide)⟩
  cases h with
  | scalar => simpa using helement
  | fixedArray hne hdigits _ =>
    have hsize := Lexeme.Word.int hne hdigits
    simpa [hbracket] using ⟨.inr (.inr hsize), helement⟩
  | dynamicArray => simpa [hbracket] using helement
  | map =>
    have hword : IsKnownWord "map" := .inr (.inl (.identifier (by decide)))
    simpa [hbrace, hword] using helement
  | shortMap =>
    have hword : IsKnownWord "smap" := .inr (.inl (.identifier (by decide)))
    simpa [hbrace, hword] using helement

theorem Field.Spelling.isKnownWord {f : Field} {ws : List String} (h : f.Spelling ws) (hname : Nameable f.name)
    (htype : f.type.Legible) : ∀ w ∈ ws, IsKnownWord w := by
  have hkeyword : IsKnownWord "field" := isKnownWord_keyword .field
  cases h with
  | plain h => simpa [hkeyword, hname.isKnownWord] using h.isKnownWord htype
  | colon h =>
    have hcolon : IsKnownWord ":" := .inl (by decide)
    simpa [hkeyword, hname.isKnownWord, hcolon] using h.isKnownWord htype

/-- Pieces that are known word by word are known together. -/
theorem isKnownWord_flatten {α : Type} {r : α → List String → Prop} {as : List α} {wss : List (List String)}
    (h : List.Forall₂ r as wss) (hr : ∀ a ∈ as, ∀ ws, r a ws → ∀ w ∈ ws, IsKnownWord w) :
    ∀ w ∈ wss.flatten, IsKnownWord w := by
  induction h with
  | nil => simp
  | @cons a ws as wss ha _ ih =>
    intro w hw
    rw [List.flatten_cons, List.mem_append] at hw
    rcases hw with hw | hw
    · exact hr a List.mem_cons_self ws ha w hw
    · exact ih (fun b hb => hr b (List.mem_cons_of_mem a hb)) w hw

theorem Declaration.Spelling.isKnownWord {d : Declaration} {ws : List String} (h : d.Spelling ws)
    (hd : d.Legible) : ∀ w ∈ ws, IsKnownWord w := by
  have hkeyword : IsKnownWord "struct" := isKnownWord_keyword .struct
  have hopen : IsKnownWord "\x7b" := .inl (by decide)
  have hclose : IsKnownWord "\x7d" := .inl (by decide)
  cases h with
  | intro h =>
    have hfields := isKnownWord_flatten h fun f hf ws hws =>
      hws.isKnownWord (hd.fields_nameable f hf) (hd.fields_legible f hf)
    intro w hw
    simp only [List.mem_cons, List.mem_append, List.not_mem_nil, or_false] at hw
    rcases hw with rfl | rfl | rfl | hw | rfl
    · exact hkeyword
    · exact hd.nameable.isKnownWord
    · exact hopen
    · exact hfields w hw
    · exact hclose

namespace Outline

variable {o : Outline} {ws : List String}

theorem Spelling.isKnownWord (h : o.Spelling ws) (hvalid : o.Valid) : ∀ w ∈ ws, IsKnownWord w := by
  have hkeyword : IsKnownWord "exports" := isKnownWord_keyword .exports
  cases h with
  | @intro ds wss name h =>
    have hstructs := isKnownWord_flatten h fun d hd ws hws => hws.isKnownWord (hvalid.declaration_legible hd)
    obtain ⟨d, hd, hname⟩ : ∃ d ∈ ds, d.name = name := List.mem_map.1 hvalid.exported
    have hexported := (hvalid.nameable d hd).isKnownWord
    rw [hname] at hexported
    intro w hw
    simp only [List.mem_cons, List.mem_append, List.not_mem_nil, or_false] at hw
    rcases hw with hw | rfl | rfl
    · exact hstructs w hw
    · exact hkeyword
    · exact hexported

theorem Spelling.keyword_of_head? (h : o.Spelling ws) (hvalid : o.Valid) :
    ∀ w, ws.head? = some w → ∃ k : Keyword, w = k.text := by
  cases h with
  | @intro ds wss name h =>
    cases h with
    | nil => exact absurd hvalid.exported (by simp [names])
    | cons hd _ =>
      cases hd with
      | intro => exact fun w hw => ⟨.struct, (Option.some.inj hw).symm⟩

end Outline

namespace Schema

theorem unmarked_of_build {ds : List Declaration} {ps : List Text.Position} (name : String)
    (hnodup : ((List.zipWith Declaration.build ds ps).map (·.name)).Nodup) :
    Unmarked ⟨insertAll ∅ (List.zipWith Declaration.build ds ps), name⟩ := by
  have hentries := @entries_insertAll ∅ (List.zipWith Declaration.build ds ps) (by simpa using hnodup)
  intro e he
  simp only [hentries, List.mem_append, List.mem_map] at he
  rcases he with he | ⟨s, hs, rfl⟩
  · cases he
  · obtain ⟨i, hi, rfl⟩ := List.getElem_of_mem hs
    rw [List.getElem_zipWith]
    exact ⟨rfl, Declaration.unmarked_build _ _⟩

/-- The schema of an outline whose structs stand at the given places. -/
def ofOutline (o : Outline) (ps : List Text.Position) : Schema :=
  markReferences ⟨insertAll ∅ (List.zipWith Declaration.build o.structs ps), o.exports⟩

/-- Tokens that spell a valid outline are read and pass the analysis. -/
theorem parse_of_classified {o : Outline} {ts : List Token} {before? : Option Token.Kind} (hvalid : o.Valid)
    (hws : o.Spelling (ts.map (·.lexeme))) (hts : Classified before? ts) :
    (parse ⟨ts⟩).result = .ok (ofOutline o (places ts)) ∧ (ofOutline o (places ts)).outline = o ∧
      (ofOutline o (places ts)).structs.keys = o.names := by
  obtain ⟨hregion, hdeclarations⟩ := regionSyntax_of_spelling hvalid hws hts
  have hread := @ofTokens_of_region [] ts [] _ _ hts.regular hregion (by simp) (by simp)
  rw [List.append_nil, List.nil_append] at hread
  have houtline :
      Schema.outline ⟨insertAll ∅ (List.zipWith Declaration.build o.structs (places ts)), o.exports⟩ = o := by
    rw [outline_insertAll hregion.nodup, hdeclarations]
  have hkeys : (insertAll ∅ (List.zipWith Declaration.build o.structs (places ts))).keys = o.names := by
    have hnames := congrArg (List.map Declaration.name) hdeclarations
    rw [List.map_map] at hnames
    exact (keys_insertAll hregion.nodup).trans hnames
  have hverdict := verdict_markReferences (unmarked_of_build o.exports hregion.nodup) (houtline.symm ▸ hvalid)
    (by rw [houtline]; exact hkeys)
  refine ⟨parse_eq_ok_iff.2 ⟨_, hread, hverdict, rfl⟩, ?_, ?_⟩
  · exact (outline_markReferences _).trans houtline
  · exact (keys_markReferences _).trans hkeys

/-- Every valid outline, written in any way with any gaps, is accepted and read back: the schema has its structs
in their order, each at the place of its keyword, and its export. -/
theorem parse_of_spelling {o : Outline} {ws : List String} {gap cs : List Char} (hvalid : o.Valid)
    (hws : o.Spelling ws) (hgap : Lexeme.Gap gap) (hlaid : Lexeme.LaidOut ws cs) :
    ∃ tokens s, (TokenStream.scan (String.ofList (gap ++ cs))).result = .ok tokens ∧
      tokens.tokens.map (·.lexeme) = ws ∧ (parse tokens).result = .ok s ∧ s.outline = o ∧
      s.structs.keys = o.names ∧ s = ofOutline o (places tokens.tokens) := by
  obtain ⟨⟨ts⟩, hscan, rfl⟩ := TokenStream.scan_laidOut hgap hlaid (hws.isKnownWord hvalid)
    (hws.keyword_of_head? hvalid)
  obtain ⟨hparse, houtline, hkeys⟩ := parse_of_classified hvalid hws (TokenStream.classified_of_scan hscan)
  exact ⟨⟨ts⟩, _, hscan, rfl, hparse, houtline, hkeys, rfl⟩

/-- Two structs, the second with seven of the first. -/
def pairOutline : Outline :=
  ⟨[⟨"A", [⟨"map", ⟨.builtin .u8, .scalar⟩⟩]⟩, ⟨"B", [⟨"cursor", ⟨.struct "A", .fixedArray 7⟩⟩]⟩], "B"⟩

def pairWords : List String :=
  ["struct", "A", "\x7b", "field", "map", ":", "u8", "\x7d", "struct", "B", "\x7b", "field", "cursor", "[",
    "007", "]", "A", "\x7d", "exports", "B"]

theorem spelling_pair : pairOutline.Spelling pairWords := by
  have hmap : Field.Spelling ⟨"map", ⟨.builtin .u8, .scalar⟩⟩ ["field", "map", ":", "u8"] := .colon .scalar
  have hcursor : Field.Spelling ⟨"cursor", ⟨.struct "A", .fixedArray 7⟩⟩
      ["field", "cursor", "[", "007", "]", "A"] :=
    .plain (.fixedArray (by decide) (List.all_eq_true.1 (by decide)) (by decide))
  exact .intro (.cons (.intro (.cons hmap .nil)) (.cons (.intro (.cons hcursor .nil)) .nil))

theorem refers_pair {source target : String} (h : pairOutline.Refers source target) :
    source = "B" ∧ target = "A" := by
  obtain ⟨d, hd, rfl, f, hf, ht⟩ := h
  simp only [pairOutline, List.mem_cons, List.not_mem_nil, or_false] at hd
  rcases hd with rfl | rfl
  · simp only [List.mem_singleton] at hf
    subst hf
    cases ht
  · simp only [List.mem_singleton] at hf
    subst hf
    exact ⟨rfl, (Option.some.inj ht).symm⟩

theorem valid_pair : pairOutline.Valid where
  nameable := by decide
  not_builtin := by decide
  nodup := by decide
  fields_ne_nil := by decide
  fields_nameable := by decide
  fields_nodup := by decide
  declared := by
    intro source target h
    obtain ⟨-, rfl⟩ := refers_pair h
    decide
  sizes := by
    intro d hd f hf count hcount
    simp only [pairOutline, List.mem_cons, List.not_mem_nil, or_false] at hd
    rcases hd with rfl | rfl
    · simp only [List.mem_singleton] at hf
      subst hf
      cases hcount
    · simp only [List.mem_singleton] at hf
      subst hf
      cases hcount
      decide
  acyclic := by
    intro name hcycle
    obtain ⟨first, hfirst, -⟩ := Relation.TransGen.head'_iff.1 hcycle
    obtain ⟨last, -, hlast⟩ := Relation.TransGen.tail'_iff.1 hcycle
    have h₁ := (refers_pair hfirst).1
    have h₂ := (refers_pair hlast).2
    exact absurd (h₁.symm.trans h₂) (by decide)
  exported := by decide
  unreferenced := by
    intro name h
    exact absurd (refers_pair h).2 (by decide)

theorem parse_pair :
    ∃ tokens s, (TokenStream.scan
        "// pair\nstruct A \x7b field map : u8 \x7d struct B \x7b field cursor [ 007 ] A \x7d exports B").result =
      .ok tokens ∧ (parse tokens).result = .ok s ∧ s.outline = pairOutline := by
  have hgap : Lexeme.Gap "// pair\n".toList := .line (by decide : '\n' ∉ " pair".toList) .nil
  have hlaid : Lexeme.LaidOut pairWords (Lexeme.spaced pairWords) := Lexeme.laidOut_spaced _ _
  obtain ⟨tokens, s, hscan, -, hparse, houtline, -⟩ := parse_of_spelling valid_pair spelling_pair hgap hlaid
  refine ⟨tokens, s, ?_, hparse, houtline⟩
  have htext : String.ofList ("// pair\n".toList ++ Lexeme.spaced pairWords) =
      "// pair\nstruct A \x7b field map : u8 \x7d struct B \x7b field cursor [ 007 ] A \x7d exports B" := by
    decide
  rwa [htext] at hscan

/-- A text of the two structs, and the schema that it is read as. -/
theorem exists_accepted_pair :
    ∃ tokens s, (TokenStream.scan
        "struct A \x7b field map : u8 \x7d struct B \x7b field cursor [ 007 ] A \x7d exports B").result =
      .ok tokens ∧ (parse tokens).result = .ok s ∧ s.outline = pairOutline := by
  have hlaid : Lexeme.LaidOut pairWords (Lexeme.spaced pairWords) := Lexeme.laidOut_spaced _ _
  obtain ⟨⟨ts⟩, hscan, hwords⟩ := TokenStream.scan_laidOut .nil hlaid (spelling_pair.isKnownWord valid_pair)
    (spelling_pair.keyword_of_head? valid_pair)
  obtain ⟨hparse, houtline, -⟩ := parse_of_classified valid_pair (hwords ▸ spelling_pair)
    (TokenStream.classified_of_scan hscan)
  have htext : String.ofList ([] ++ Lexeme.spaced pairWords) =
      "struct A \x7b field map : u8 \x7d struct B \x7b field cursor [ 007 ] A \x7d exports B" := by decide
  exact ⟨⟨ts⟩, _, htext ▸ hscan, hparse, houtline⟩

end Schema

end BufferSchema
