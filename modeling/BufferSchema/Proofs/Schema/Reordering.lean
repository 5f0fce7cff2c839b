import BufferSchema.Proofs.Schema.Reliable
import Mathlib.Data.List.Basic
import Mathlib.Data.List.Perm.Basic

/-!
# Structs in another order

Two texts that define the same structs in another order are both accepted or both refused, and what is accepted
has the same structs. This is not seen on the search for cycles, which takes other ways through other orders and
may find another fault first, but on the outline: a text is accepted exactly if its outline is valid, and no part of
what makes an outline valid looks at the order of its structs.
-/

namespace BufferSchema

open Schema.Parser
open Outline (Nameable)

theorem exists_of_forall₂_right {α β : Type} {r : α → β → Prop} {as : List α} {bs : List β}
    (h : List.Forall₂ r as bs) : ∀ b ∈ bs, ∃ a ∈ as, r a b := by
  induction h with
  | nil => simp
  | @cons a b as bs hab _ ih =>
    refine List.forall_mem_cons.2 ⟨⟨a, List.mem_cons_self, hab⟩, fun c hc => ?_⟩
    obtain ⟨a', ha', hac⟩ := ih c hc
    exact ⟨a', List.mem_cons_of_mem a ha', hac⟩

/-! What the words of a struct are. -/

/-- The words of a struct: its keyword, and behind it nothing that starts another struct or an export. -/
def IsDefinition (ws : List String) : Prop :=
  ∃ body, ws = Keyword.struct.text :: body ∧ Keyword.struct.text ∉ body ∧ Keyword.exports.text ∉ body

/-- No name in what is said of a struct is a keyword. -/
structure Declaration.KeywordFree (d : Declaration) : Prop where
  name : ∀ k : Keyword, d.name ≠ k.text
  fields : ∀ f ∈ d.fields, ∀ k : Keyword, f.name ≠ k.text
  elements : ∀ f ∈ d.fields, ∀ k : Keyword, f.type.element.name ≠ k.text

theorem Declaration.Legible.keywordFree {d : Declaration} (h : d.Legible) : d.KeywordFree :=
  ⟨h.nameable.2, fun f hf => (h.fields_nameable f hf).2, fun f hf => (h.fields_legible f hf).nameable.2⟩

theorem keyword_ne_digits {digits : String} (hdigits : ∀ c ∈ digits.toList, c.isDigit = true) (k : Keyword) :
    k.text ≠ digits := by
  rintro rfl
  have hall : k.text.toList.all (·.isDigit) = true := List.all_eq_true.2 hdigits
  revert hall
  cases k <;> decide

theorem TypeRef.Spelling.keyword_not_mem {type : TypeRef} {ws : List String} (h : type.Spelling ws) {k : Keyword}
    (hk : type.element.name ≠ k.text) : k.text ∉ ws := by
  have hmark : ∀ w ∈ ["\x7b", "\x7d", "[", "]", "map", "smap"], k.text ≠ w := by
    cases k <;> decide
  have hname := hk.symm
  cases h with
  | scalar => simpa using hname
  | fixedArray _ hdigits _ =>
    have hsize := keyword_ne_digits hdigits k
    simpa [hmark] using ⟨hsize, hname⟩
  | dynamicArray => simpa [hmark] using hname
  | map => simpa [hmark] using hname
  | shortMap => simpa [hmark] using hname

theorem Field.Spelling.keyword_not_mem {f : Field} {ws : List String} (h : f.Spelling ws) {k : Keyword}
    (hfield : k ≠ .field) (hname : f.name ≠ k.text) (helement : f.type.element.name ≠ k.text) : k.text ∉ ws := by
  have hkeyword : k.text ≠ "field" := by
    cases k with
    | field => exact absurd rfl hfield
    | _ => decide
  have hcolon : k.text ≠ ":" := by cases k <;> decide
  cases h with
  | plain h => simpa [hkeyword] using ⟨hname.symm, h.keyword_not_mem helement⟩
  | colon h => simpa [hkeyword, hcolon] using ⟨hname.symm, h.keyword_not_mem helement⟩

/-- However a struct is written, its words are a definition if no name is a keyword. The names may be invalid
otherwise. -/
theorem Declaration.Spelling.isDefinition {d : Declaration} {ws : List String} (h : d.Spelling ws)
    (hd : d.KeywordFree) : IsDefinition ws := by
  cases h with
  | @intro name fs wss h =>
    have hbody : ∀ k : Keyword, k ≠ .field → k.text ∉ name :: "\x7b" :: (wss.flatten ++ ["\x7d"]) := by
      intro k hk
      have hfields : k.text ∉ wss.flatten := by
        rw [List.mem_flatten]
        rintro ⟨ws, hws, hmem⟩
        obtain ⟨f, hf, hspelled⟩ := exists_of_forall₂_right h ws hws
        exact hspelled.keyword_not_mem hk (hd.fields f hf k) (hd.elements f hf k) hmem
      have hmark : k.text ≠ "\x7b" ∧ k.text ≠ "\x7d" := by cases k <;> decide
      simpa [hmark, hfields] using (hd.name k).symm
    exact ⟨_, rfl, hbody .struct (by simp), hbody .exports (by simp)⟩

theorem IsDefinition.exports_not_mem {ws : List String} (h : IsDefinition ws) : Keyword.exports.text ∉ ws := by
  obtain ⟨body, rfl, -, hbody⟩ := h
  have hne : Keyword.exports.text ≠ Keyword.struct.text := by decide
  simp [hne, hbody]

theorem exports_not_mem_flatten {wss : List (List String)} (h : ∀ ws ∈ wss, IsDefinition ws) :
    Keyword.exports.text ∉ wss.flatten := by
  rw [List.mem_flatten]
  rintro ⟨ws, hws, hmem⟩
  exact (h ws hws).exports_not_mem hmem

/-- Definitions start with a keyword, so words without it are not in front of them. -/
theorem eq_nil_of_append_eq_flatten {front rest : List String} {wss : List (List String)}
    (h : ∀ ws ∈ wss, IsDefinition ws) (hfront : Keyword.struct.text ∉ front) (heq : front ++ rest = wss.flatten) :
    front = [] := by
  cases front with
  | nil => rfl
  | cons w front =>
    cases wss with
    | nil => cases heq
    | cons ws wss =>
      obtain ⟨body, rfl, -, -⟩ := h ws List.mem_cons_self
      obtain rfl : w = Keyword.struct.text := (List.cons.inj heq).1
      exact absurd List.mem_cons_self hfront

theorem eq_nil_of_not_mem_flatten {wss : List (List String)} (h : ∀ ws ∈ wss, IsDefinition ws)
    (hwss : Keyword.struct.text ∉ wss.flatten) : wss = [] := by
  refine List.eq_nil_iff_forall_not_mem.2 fun ws hws => ?_
  obtain ⟨body, rfl, -, -⟩ := h ws hws
  exact hwss (List.mem_flatten.2 ⟨_, hws, List.mem_cons_self⟩)

/-- Where one definition ends and the next one starts is seen on the words. -/
theorem definitions_unique {wss wss' : List (List String)} (h : ∀ ws ∈ wss, IsDefinition ws)
    (h' : ∀ ws ∈ wss', IsDefinition ws) (heq : wss.flatten = wss'.flatten) : wss = wss' := by
  have hstop : ∀ {wss : List (List String)}, (∀ ws ∈ wss, IsDefinition ws) → ∀ {body : List String},
      Keyword.struct.text ∉ body →
      (body ++ wss.flatten).takeWhile (· != Keyword.struct.text) = body ∧
      (body ++ wss.flatten).dropWhile (· != Keyword.struct.text) = wss.flatten := by
    intro wss h body hbody
    have hinside : ∀ w ∈ body, (w != Keyword.struct.text) = true := by
      intro w hw
      simpa using fun heq : w = Keyword.struct.text => hbody (heq ▸ hw)
    rw [List.takeWhile_append_of_pos hinside, List.dropWhile_append_of_pos hinside]
    cases wss with
    | nil => simp
    | cons ws wss =>
      obtain ⟨body, rfl, -, -⟩ := h ws List.mem_cons_self
      simp
  induction wss generalizing wss' with
  | nil =>
    cases wss' with
    | nil => rfl
    | cons ws wss =>
      obtain ⟨body, rfl, -, -⟩ := h' ws List.mem_cons_self
      cases heq
  | cons ws wss ih =>
    obtain ⟨body, rfl, hbody, -⟩ := h ws List.mem_cons_self
    have hrest := fun v hv => h v (List.mem_cons_of_mem _ hv)
    cases wss' with
    | nil => cases heq
    | cons ws' wss' =>
      obtain ⟨body', rfl, hbody', -⟩ := h' ws' List.mem_cons_self
      have hrest' := fun v hv => h' v (List.mem_cons_of_mem _ hv)
      simp only [List.flatten_cons, List.cons_append, List.cons.injEq, true_and] at heq
      obtain ⟨htake, hdrop⟩ := hstop hrest hbody
      obtain ⟨htake', hdrop'⟩ := hstop hrest' hbody'
      obtain rfl : body = body' := htake.symm.trans (heq ▸ htake')
      rw [ih hrest hrest' (hdrop.symm.trans (heq ▸ hdrop'))]

/-! An outline with its structs in another order. -/

namespace Outline

variable {ds ds' : List Declaration} {name : String}

theorem Spelling.exists_definitions {o : Outline} {ws : List String} (h : o.Spelling ws) :
    ∃ wss, ws = wss.flatten ++ [Keyword.exports.text, o.exports] ∧
      List.Forall₂ Declaration.Spelling o.structs wss := by
  cases h with
  | intro h => exact ⟨_, rfl, h⟩

theorem refers_perm (h : ds.Perm ds') : Refers ⟨ds, name⟩ = Refers ⟨ds', name⟩ := by
  funext source target
  simp [Refers, h.mem_iff]

/-- Whether an outline makes sense does not depend on the order of its structs. -/
theorem Valid.perm (h : ds.Perm ds') (hvalid : Valid ⟨ds, name⟩) : Valid ⟨ds', name⟩ := by
  have hmem : ∀ d ∈ ds', d ∈ ds := fun d hd => h.mem_iff.2 hd
  have hnames : (names ⟨ds, name⟩).Perm (names ⟨ds', name⟩) := h.map _
  have hrefers : Refers ⟨ds, name⟩ = Refers ⟨ds', name⟩ := refers_perm h
  exact
    { nameable := fun d hd => hvalid.nameable d (hmem d hd)
      not_builtin := fun d hd => hvalid.not_builtin d (hmem d hd)
      nodup := hnames.nodup_iff.1 hvalid.nodup
      fields_ne_nil := fun d hd => hvalid.fields_ne_nil d (hmem d hd)
      fields_nameable := fun d hd => hvalid.fields_nameable d (hmem d hd)
      fields_nodup := fun d hd => hvalid.fields_nodup d (hmem d hd)
      declared := fun source target ht => hnames.mem_iff.1 (hvalid.declared source target (hrefers ▸ ht))
      sizes := fun d hd => hvalid.sizes d (hmem d hd)
      acyclic := fun n => hrefers ▸ hvalid.acyclic n
      exported := hnames.mem_iff.1 hvalid.exported
      unreferenced := fun source => hrefers ▸ hvalid.unreferenced source }

end Outline

/-! Texts with their structs in another order. -/

/-- The words of a text of definitions, with the export of `exported` behind the first `n` of them. -/
def arrangement (definitions : List (List String)) (n : Nat) (exported : String) : List String :=
  (definitions.take n).flatten ++ Keyword.exports.text :: exported :: (definitions.drop n).flatten

/-- The texts define the same structs, in whatever orders, and export the same. Gaps and comments are free. -/
def Reordered (source source' : String) : Prop :=
  ∃ definitions definitions' n exported, (∀ ws ∈ definitions, IsDefinition ws) ∧ definitions.Perm definitions' ∧
    Lexeme.texts source = arrangement definitions n exported ∧
    Lexeme.texts source' = arrangement definitions' n exported

theorem Reordered.symm {source source' : String} (h : Reordered source source') : Reordered source' source := by
  obtain ⟨definitions, definitions', n, exported, hdefinitions, hperm, htexts, htexts'⟩ := h
  exact ⟨definitions', definitions, n, exported, fun ws hws => hdefinitions ws (hperm.mem_iff.2 hws), hperm.symm,
    htexts', htexts⟩

namespace Schema

variable {source source' : String} {s : Schema}

/-- A text that spells a valid outline is accepted. -/
theorem ofText_of_spelling {o : Outline} (hvalid : o.Valid) (h : o.Spelling (Lexeme.texts source)) :
    ∃ s, ofText source = .ok s ∧ s.outline = o := by
  obtain ⟨⟨ts⟩, hscan⟩ := TokenStream.scan_of_known (h.isKnownWord hvalid) (h.keyword_of_head? hvalid)
  obtain ⟨hparse, houtline, -⟩ := parse_of_classified hvalid (TokenStream.texts_of_scan hscan ▸ h)
    (TokenStream.classified_of_scan hscan)
  exact ⟨_, bind_eq_ok_iff.2 ⟨_, hscan, hparse⟩, houtline⟩

theorem keyword_not_mem_of_outside {tokens : TokenStream} (hscan : (TokenStream.scan source).result = .ok tokens)
    {us : List Token} (hsub : us ⊆ tokens.tokens) (hus : ∀ t ∈ us, t.Outside) :
    Keyword.struct.text ∉ us.map (·.lexeme) ∧ Keyword.exports.text ∉ us.map (·.lexeme) := by
  have hspelled : ∀ t ∈ us, ∀ text, t.lexeme = text → t.isSpelled text = true := fun t ht text htext =>
    (TokenStream.classified_of_scan hscan).isSpelled_of_lexeme (hsub ht) htext
  constructor
  · rintro hmem
    obtain ⟨t, ht, htext⟩ := List.mem_map.1 hmem
    exact absurd (hspelled t ht _ htext) (by simp [(hus t ht).1])
  · rintro hmem
    obtain ⟨t, ht, htext⟩ := List.mem_map.1 hmem
    exact absurd (hspelled t ht _ htext) (by simp [(hus t ht).2])

/-- What an accepted text of definitions says: its export stands behind all of them, and they spell its structs. -/
theorem spelling_of_arrangement {definitions : List (List String)} {n : Nat} {exported : String}
    (hdefinitions : ∀ ws ∈ definitions, IsDefinition ws)
    (htexts : Lexeme.texts source = arrangement definitions n exported) (h : ofText source = .ok s) :
    List.Forall₂ Declaration.Spelling s.outline.structs definitions ∧ s.exports = exported ∧
      definitions.length ≤ n := by
  obtain ⟨tokens, hscan, hparse⟩ := bind_eq_ok_iff.1 h
  obtain ⟨before, ss, after, hsplit, hregion, hs, hbefore, hafter⟩ := regionSyntax_of_parse hscan hparse
  have hvalid := valid_of_parse hscan hparse
  obtain ⟨wss, (hwords : _ = wss.flatten ++ [Keyword.exports.text, s.exports]), hspelled⟩ :=
    (spelling_of_region hscan hsplit hregion hs).exists_definitions
  have hwss : ∀ ws ∈ wss, IsDefinition ws := by
    intro ws hws
    obtain ⟨d, hd, hspelled⟩ := exists_of_forall₂_right hspelled ws hws
    exact hspelled.isDefinition (hvalid.declaration_legible hd).keywordFree
  obtain ⟨hstructs, hexports⟩ := keyword_not_mem_of_outside hscan (hsplit ▸ by simp) hbefore
  obtain ⟨hstructs', hexports'⟩ := keyword_not_mem_of_outside hscan (hsplit ▸ by simp) hafter
  -- both sides have one `exports`, so what stands in front of it is the same, and so is what stands behind it
  have hsides : (before.map (·.lexeme) ++ wss.flatten) ++ Keyword.exports.text :: s.exports ::
      after.map (·.lexeme) = arrangement definitions n exported := by
    rw [← htexts, ← TokenStream.texts_of_scan hscan, hsplit, List.map_append, List.map_append, hwords]
    simp
  have hfront : Keyword.exports.text ∉ before.map (·.lexeme) ++ wss.flatten := by
    rw [List.mem_append, not_or]
    exact ⟨hexports, exports_not_mem_flatten hwss⟩
  have hback : Keyword.exports.text ∉ s.exports :: after.map (·.lexeme) := by
    obtain ⟨d, hd, hname⟩ : ∃ d ∈ s.outline.structs, d.name = s.exports := List.mem_map.1 hvalid.exported
    have hnameable := (hvalid.nameable d hd).2 .exports
    rw [hname] at hnameable
    simpa using ⟨hnameable.symm, by simpa using hexports'⟩
  obtain ⟨hfirst, -, hrest⟩ := (List.append_cons_inj_of_notMem hfront hback).1 hsides
  obtain ⟨rfl, hlast⟩ := List.cons.inj hrest
  have hnothing : definitions.drop n = [] :=
    eq_nil_of_not_mem_flatten (fun ws hws => hdefinitions ws (List.mem_of_mem_drop hws)) (hlast ▸ hstructs')
  have hlength : definitions.length ≤ n := List.drop_eq_nil_iff.1 hnothing
  rw [List.take_of_length_le hlength] at hfirst
  rw [eq_nil_of_append_eq_flatten hdefinitions hstructs hfirst, List.nil_append] at hfirst
  exact ⟨definitions_unique hwss hdefinitions hfirst ▸ hspelled, rfl, hlength⟩

/-- What is accepted in one order of the structs is accepted in every other, and says the same of each struct. -/
theorem ofText_reordered (h : Reordered source source') (hs : ofText source = .ok s) :
    ∃ s', ofText source' = .ok s' ∧ s.outline.structs.Perm s'.outline.structs ∧ s'.exports = s.exports := by
  obtain ⟨definitions, definitions', n, exported, hdefinitions, hperm, htexts, htexts'⟩ := h
  obtain ⟨hspelled, rfl, hlength⟩ := spelling_of_arrangement hdefinitions htexts hs
  obtain ⟨tokens, hscan, hparse⟩ := bind_eq_ok_iff.1 hs
  obtain ⟨ds, hspelled', hds⟩ := List.perm_comp_forall₂ hperm.symm hspelled.flip
  have hvalid : Outline.Valid ⟨ds, s.exports⟩ := (valid_of_parse hscan hparse).perm hds.symm
  have hwords : Outline.Spelling ⟨ds, s.exports⟩ (Lexeme.texts source') := by
    rw [htexts', arrangement, List.take_of_length_le (hperm.length_eq ▸ hlength),
      List.drop_eq_nil_iff.2 (hperm.length_eq ▸ hlength)]
    exact .intro hspelled'.flip
  obtain ⟨s', hs', houtline⟩ := ofText_of_spelling hvalid hwords
  refine ⟨s', hs', ?_, congrArg Outline.exports houtline⟩
  rw [houtline]
  exact hds.symm

end Schema

end BufferSchema
