import BufferSchema.Proofs.Schema.Acceptance

/-!
# The tokens of a spelling

Whatever way a valid outline is written in, the tokens that have the words of it stand as the grammar wants
them. Their kinds come from the words alone and the tokens before, and each struct gets the place of its
keyword.
-/

namespace BufferSchema

open Schema.Parser
open Token (Classified)
open Outline (Nameable)

/-! The tokens that have the texts of a spelling stand as the grammar wants them. -/

namespace Token

variable {before? : Option Kind} {us vs : List Token}

theorem Classified.append_left (h : Classified before? (us ++ vs)) : Classified before? us := by
  induction us generalizing before? with
  | nil => exact .nil
  | cons u us ih =>
    cases h with
    | cons hword htext hkind hrest => exact .cons hword htext hkind (ih hrest)

theorem Classified.isSpelled {t : Token} {text : String} (h : Classified before? (t :: us))
    (ht : t.lexeme = text) : t.isSpelled text = true :=
  h.isSpelled_of_lexeme List.mem_cons_self ht

end Token

/-- A name that a schema can use is no keyword. -/
theorem Outline.Nameable.ofText?_eq_none {name : String} (h : Nameable name) : Keyword.ofText? name = none := by
  cases hk : Keyword.ofText? name with
  | none => rfl
  | some k => exact absurd (Keyword.ofText?_eq_some_iff.1 hk) (h.2 k)

theorem Builtin.nameable (b : Builtin) : Nameable b.name :=
  ⟨Name.fault?_eq_none_iff.1 (by cases b <;> decide), fun k => by cases b <;> cases k <;> decide⟩

/-- A type that is read from the words which spell it. -/
structure TypeRef.Legible (type : TypeRef) : Prop where
  nameable : Nameable type.element.name
  element : Element.ofName type.element.name = type.element
  size : ∀ count, type.shape = .fixedArray count → 1 ≤ count ∧ count ≤ 2 ^ 64 - 1

theorem Outline.Valid.not_builtin_of_mem {o : Outline} (h : o.Valid) {name : String} (hname : name ∈ o.names) :
    Builtin.ofName? name = none := by
  obtain ⟨d, hd, rfl⟩ := List.mem_map.1 hname
  exact h.not_builtin d hd

/-- In a valid outline every type is a built-in one or names a struct of the outline, and can be read. -/
theorem Outline.Valid.legible {o : Outline} (h : o.Valid) {d : Declaration} (hd : d ∈ o.structs) {f : Field}
    (hf : f ∈ d.fields) : f.type.Legible := by
  refine ⟨?_, ?_, h.sizes d hd f hf⟩
  · cases he : f.type.element with
    | builtin b => exact b.nameable
    | struct name =>
      have hmem := h.declared d.name name ⟨d, hd, rfl, f, hf, by rw [he]; rfl⟩
      obtain ⟨d', hd', rfl⟩ := List.mem_map.1 hmem
      exact h.nameable d' hd'
  · cases he : f.type.element with
    | builtin b =>
      have hb : Builtin.ofName? b.name = some b := Builtin.ofName?_eq_some_iff.2 rfl
      simp [Element.ofName, Element.name, hb]
    | struct name =>
      have hmem := h.declared d.name name ⟨d, hd, rfl, f, hf, by rw [he]; rfl⟩
      simp [Element.ofName, Element.name, h.not_builtin_of_mem hmem]

namespace Schema.Parser

/-- A word behind a token that is no keyword names a type, if it can be a name. -/
theorem namesType_of_classified {kind : Token.Kind} {t : Token} {us : List Token}
    (h : Classified (some kind) (t :: us)) (hkind : ∀ k, kind ≠ .keyword k) (ht : Nameable t.lexeme) :
    NamesType t :=
  ⟨ht.1, h.kind_of_type hkind ht.1.identifier ht.ofText?_eq_none⟩

theorem namesType_of_element {kind : Token.Kind} {type : TypeRef} {t : Token} {us : List Token}
    (h : Classified (some kind) (t :: us)) (hkind : ∀ k, kind ≠ .keyword k) (htype : type.Legible)
    (ht : t.lexeme = type.element.name) : NamesType t :=
  namesType_of_classified h hkind (ht ▸ htype.nameable)

/-- Both maps are spelled alike but for their last word. -/
theorem typeSyntax_of_map {type : TypeRef} {us : List Token} {before? : Option Token.Kind} {word : String}
    (hws : us.map (·.lexeme) = ["\x7b", type.element.name, "\x7d", word]) (hus : Classified before? us)
    (htype : type.Legible)
    (hword : word = "map" ∧ type.shape = .map ∨ word = "smap" ∧ type.shape = .shortMap) :
    TypeSyntax type us := by
  obtain ⟨opening, t, closing, last, rfl, hopen, ht, hclose, hlast⟩ : ∃ opening t closing last,
      us = [opening, t, closing, last] ∧ opening.lexeme = "\x7b" ∧ t.lexeme = type.element.name ∧
        closing.lexeme = "\x7d" ∧ last.lexeme = word := by
    simp only [List.map_eq_cons_iff, List.map_eq_nil_iff] at hws
    obtain ⟨opening, _, rfl, hopen, t, _, rfl, ht, closing, _, rfl, hclose, last, _, rfl, hlast, rfl⟩ := hws
    exact ⟨opening, t, closing, last, rfl, hopen, ht, hclose, hlast⟩
  have hbefore : opening.kind = .operator := hus.kind_of_operator (by rw [hopen]; decide)
  have hrest := hus.tail
  rw [hbefore] at hrest
  have hname := namesType_of_element hrest (by simp) htype ht
  have hspelled := hus.tail.tail.tail.isSpelled hlast
  have hshape : mapShape? last = some type.shape := by
    rcases hword with ⟨rfl, hshape⟩ | ⟨rfl, hshape⟩
    · simp [mapShape?, hspelled, hshape]
    · have hmap : last.isSpelled "map" = false := isSpelled_eq_false_of_ne hspelled (by decide)
      simp [mapShape?, hspelled, hmap, hshape]
  have hsyntax := TypeSyntax.map (hus.isSpelled hopen) hname (hus.tail.tail.isSpelled hclose) hshape
  rwa [ht, htype.element] at hsyntax

/-- The tokens that have the words of a type stand as the grammar wants them, if the token in front is no keyword. -/
theorem typeSyntax_of_spelling {type : TypeRef} {us : List Token} {kind : Token.Kind}
    (h : type.Spelling (us.map (·.lexeme))) (hus : Classified (some kind) us) (hkind : ∀ k, kind ≠ .keyword k)
    (htype : type.Legible) : TypeSyntax type us := by
  generalize hws : us.map (·.lexeme) = ws at h
  have hmark : ∀ {before? : Option Token.Kind} {t : Token} {ts : List Token} {text : String},
      Classified before? (t :: ts) → t.lexeme = text → text ∈ Token.operators → t.kind = .operator :=
    fun h ht hmem => h.kind_of_operator (ht ▸ hmem)
  cases h with
  | @scalar e =>
    obtain ⟨t, rfl, ht⟩ : ∃ t, us = [t] ∧ t.lexeme = e.name := by simpa [List.map_eq_cons_iff] using hws
    have hname := namesType_of_element hus hkind htype ht
    have helement : Element.ofName t.lexeme = e := by rw [ht]; exact htype.element
    rw [← helement]
    exact .scalar hname
  | @fixedArray e count digits hne hdigits hcount =>
    obtain ⟨opening, size, closing, t, rfl, hopen, rfl, hclose, ht⟩ : ∃ opening size closing t,
        us = [opening, size, closing, t] ∧ opening.lexeme = "[" ∧ size.lexeme = digits ∧
          closing.lexeme = "]" ∧ t.lexeme = e.name := by
      simp only [List.map_eq_cons_iff, List.map_eq_nil_iff] at hws
      obtain ⟨opening, _, rfl, hopen, size, _, rfl, hsize, closing, _, rfl, hclose, t, _, rfl, ht, rfl⟩ := hws
      exact ⟨opening, size, closing, t, rfl, hopen, hsize, hclose, ht⟩
    have hsize := hus.tail.kind_of_digits hne hdigits
    have hbefore := hmark hus.tail.tail hclose (by decide)
    have hlast := hus.tail.tail.tail
    rw [hbefore] at hlast
    have hname := namesType_of_element hlast (by simp) htype ht
    obtain ⟨hpos, hle⟩ := htype.size count rfl
    have hvalue : arraySize? size.lexeme = some count := by
      have hdecimal : decimal size.lexeme.toList = count := hcount
      simp only [arraySize?, hdecimal, maxArraySize]
      rw [if_pos (by omega)]
    have helement : Element.ofName t.lexeme = e := by rw [ht]; exact htype.element
    rw [← helement]
    exact .fixedArray (hus.isSpelled hopen) hsize hvalue (hus.tail.tail.isSpelled hclose) hname
  | @dynamicArray e =>
    obtain ⟨opening, closing, t, rfl, hopen, hclose, ht⟩ : ∃ opening closing t,
        us = [opening, closing, t] ∧ opening.lexeme = "[" ∧ closing.lexeme = "]" ∧ t.lexeme = e.name := by
      simp only [List.map_eq_cons_iff, List.map_eq_nil_iff] at hws
      obtain ⟨opening, _, rfl, hopen, closing, _, rfl, hclose, t, _, rfl, ht, rfl⟩ := hws
      exact ⟨opening, closing, t, rfl, hopen, hclose, ht⟩
    have hbefore := hmark hus.tail hclose (by decide)
    have hlast := hus.tail.tail
    rw [hbefore] at hlast
    have hname := namesType_of_element hlast (by simp) htype ht
    have helement : Element.ofName t.lexeme = e := by rw [ht]; exact htype.element
    rw [← helement]
    exact .dynamicArray (hus.isSpelled hopen) (by simp [hbefore]) (hus.tail.isSpelled hclose) hname
  | @map e => exact typeSyntax_of_map hws hus htype (.inl ⟨rfl, rfl⟩)
  | @shortMap e => exact typeSyntax_of_map hws hus htype (.inr ⟨rfl, rfl⟩)

/-- So do those of a field, with or without a colon. -/
theorem fieldSyntax_of_spelling {f : Field} {us : List Token} {before? : Option Token.Kind}
    (h : f.Spelling (us.map (·.lexeme))) (hus : Classified before? us) (hname : Nameable f.name)
    (htype : f.type.Legible) : FieldSyntax f us := by
  generalize hws : us.map (·.lexeme) = ws at h
  cases h with
  | @plain name type ws h =>
    simp only [List.map_eq_cons_iff] at hws
    obtain ⟨keyword, _, rfl, hkeyword, t, us, rfl, rfl, rfl⟩ := hws
    have hfield : keyword.kind = .keyword .field := hus.kind_of_keyword hkeyword
    have hrest := hus.tail
    rw [hfield] at hrest
    have hkind := hrest.kind_of_name hname.1.identifier hname.ofText?_eq_none
    have hlast := hrest.tail
    rw [hkind] at hlast
    exact .plain (hus.isSpelled hkeyword) hname.1 hkind (typeSyntax_of_spelling h hlast (by simp) htype)
  | @colon name type ws h =>
    simp only [List.map_eq_cons_iff] at hws
    obtain ⟨keyword, _, rfl, hkeyword, t, _, rfl, rfl, colon, us, rfl, hcolon, rfl⟩ := hws
    have hfield : keyword.kind = .keyword .field := hus.kind_of_keyword hkeyword
    have hrest := hus.tail
    rw [hfield] at hrest
    have hkind := hrest.kind_of_name hname.1.identifier hname.ofText?_eq_none
    have hoperator : colon.kind = .operator := hrest.tail.kind_of_operator (by rw [hcolon]; decide)
    have hlast := hrest.tail.tail
    rw [hoperator] at hlast
    exact .colon (hus.isSpelled hkeyword) hname.1 hkind (hrest.tail.isSpelled hcolon)
      (typeSyntax_of_spelling h hlast (by simp) htype)

theorem fieldSyntax_of_spellings {fs : List Field} {wss : List (List String)}
    (h : List.Forall₂ Field.Spelling fs wss) {us : List Token} {before? : Option Token.Kind}
    (hws : us.map (·.lexeme) = wss.flatten) (hus : Classified before? us) (hname : ∀ f ∈ fs, Nameable f.name)
    (htype : ∀ f ∈ fs, f.type.Legible) : ∃ uss, us = uss.flatten ∧ List.Forall₂ FieldSyntax fs uss := by
  induction h generalizing us before? with
  | nil => exact ⟨[], by simpa using hws, .nil⟩
  | @cons f ws fs wss hf _ ih =>
    rw [List.flatten_cons, List.map_eq_append_iff] at hws
    obtain ⟨us, vs, rfl, rfl, hvs⟩ := hws
    obtain ⟨last?, hlast⟩ := hus.of_append
    obtain ⟨uss, rfl, hfs⟩ := ih hvs hlast (fun g hg => hname g (List.mem_cons_of_mem f hg))
      fun g hg => htype g (List.mem_cons_of_mem f hg)
    have hhead := fieldSyntax_of_spelling hf hus.append_left (hname f List.mem_cons_self)
      (htype f List.mem_cons_self)
    exact ⟨us :: uss, rfl, .cons hhead hfs⟩

end Schema.Parser

/-- The struct that a declaration gives at a place. -/
def Declaration.build (d : Declaration) (position : Text.Position) : Struct :=
  d.fields.foldl Struct.push { name := d.name, position }

/-- A declaration that is read from the words which spell it. -/
structure Declaration.Legible (d : Declaration) : Prop where
  nameable : Nameable d.name
  not_builtin : Builtin.ofName? d.name = none
  fields_ne_nil : d.fields ≠ []
  fields_nameable : ∀ f ∈ d.fields, Nameable f.name
  fields_legible : ∀ f ∈ d.fields, f.type.Legible
  fields_nodup : (d.fields.map (·.name)).Nodup

theorem Outline.Valid.declaration_legible {o : Outline} (h : o.Valid) {d : Declaration} (hd : d ∈ o.structs) :
    d.Legible :=
  ⟨h.nameable d hd, h.not_builtin d hd, h.fields_ne_nil d hd, h.fields_nameable d hd,
    fun _ hf => h.legible hd hf, h.fields_nodup d hd⟩

namespace Schema.Parser

/-- The places of the structs among the tokens `us`. -/
def places (us : List Token) : List Text.Position :=
  (us.filter (·.isSpelled Keyword.struct.text)).map (·.position)

theorem places_append (us vs : List Token) : places (us ++ vs) = places us ++ places vs := by
  simp [places]

theorem places_of_outside {us : List Token} (h : ∀ t ∈ us, t.isSpelled Keyword.struct.text = false) :
    places us = [] := by
  simpa [places] using h

/-- A struct is spelled with one keyword `struct`, and the place of that is the place of the struct. -/
theorem structSyntax_of_spelling {d : Declaration} {us : List Token} {before? : Option Token.Kind}
    (h : d.Spelling (us.map (·.lexeme))) (hus : Classified before? us) (hd : d.Legible) :
    ∃ p, StructSyntax (d.build p) us ∧ places us = [p] := by
  generalize hws : us.map (·.lexeme) = ws at h
  cases h with
  | @intro name fs wss h =>
    simp only [List.map_eq_cons_iff, List.map_eq_append_iff, List.map_eq_nil_iff] at hws
    obtain ⟨keyword, _, rfl, hkeyword, t, _, rfl, rfl, opening, _, rfl, hopen, us, _, rfl, hfields, closing, _,
      rfl, hclose, rfl⟩ := hws
    have hstruct : keyword.kind = .keyword .struct := hus.kind_of_keyword hkeyword
    have hrest := hus.tail
    rw [hstruct] at hrest
    have hkind := hrest.kind_of_name hd.nameable.1.identifier hd.nameable.ofText?_eq_none
    obtain ⟨uss, rfl, hfs⟩ := fieldSyntax_of_spellings h hfields hrest.tail.tail.append_left hd.fields_nameable
      hd.fields_legible
    obtain ⟨last?, hlast⟩ := hrest.tail.tail.of_append
    have hsyntax : StructSyntax _ (keyword :: t :: opening :: (uss.flatten ++ [closing])) :=
      .intro (hus.isSpelled hkeyword) hd.nameable.1 hkind hd.not_builtin (hrest.tail.isSpelled hopen)
        hd.fields_ne_nil hfs hd.fields_nodup (hlast.isSpelled hclose)
    refine ⟨keyword.position, hsyntax, ?_⟩
    have hinside := structSyntax_outside hsyntax fun u hu => hus.regular u (List.mem_cons_of_mem _ hu)
    have hnone : places (t :: opening :: (uss.flatten ++ [closing])) = [] :=
      places_of_outside fun u hu => (hinside u hu).1
    have hspelled : keyword.isSpelled Keyword.struct.text = true := hus.isSpelled hkeyword
    rw [← List.singleton_append, places_append, hnone]
    simp [places, hspelled]

/-- Structs behind each other take the places of their keywords, one each. -/
theorem structSyntax_of_spellings {ds : List Declaration} {wss : List (List String)}
    (h : List.Forall₂ Declaration.Spelling ds wss) {us : List Token} {before? : Option Token.Kind}
    (hws : us.map (·.lexeme) = wss.flatten) (hus : Classified before? us) (hds : ∀ d ∈ ds, d.Legible) :
    ∃ uss, us = uss.flatten ∧ List.Forall₂ StructSyntax (List.zipWith Declaration.build ds (places us)) uss ∧
      (places us).length = ds.length := by
  induction h generalizing us before? with
  | nil =>
    obtain rfl : us = [] := by simpa using hws
    exact ⟨[], rfl, .nil, rfl⟩
  | @cons d ws ds wss hd _ ih =>
    rw [List.flatten_cons, List.map_eq_append_iff] at hws
    obtain ⟨us, vs, rfl, rfl, hvs⟩ := hws
    obtain ⟨last?, hlast⟩ := hus.of_append
    obtain ⟨uss, rfl, hss, hlength⟩ := ih hvs hlast fun e he => hds e (List.mem_cons_of_mem d he)
    obtain ⟨p, hs, hp⟩ := structSyntax_of_spelling hd hus.append_left (hds d List.mem_cons_self)
    refine ⟨us :: uss, rfl, ?_, ?_⟩
    · rw [places_append, hp]
      exact .cons hs hss
    · rw [places_append, hp]
      simp [hlength]

end Schema.Parser

theorem Declaration.declaration_build (d : Declaration) (p : Text.Position) : (d.build p).declaration = d := by
  simp [build, Struct.declaration, name_foldl_push, fields_foldl_push]

theorem declarations_zipWith_build {ds : List Declaration} {ps : List Text.Position}
    (h : ps.length = ds.length) : (List.zipWith Declaration.build ds ps).map Struct.declaration = ds := by
  induction ds generalizing ps with
  | nil => rfl
  | cons d ds ih =>
    cases ps with
    | nil => cases h
    | cons p ps =>
      rw [List.zipWith_cons_cons, List.map_cons, Declaration.declaration_build, ih (by simpa using h)]

namespace Schema

/-- The tokens that spell a valid outline are the structs of it, each at its place, and the export. -/
theorem regionSyntax_of_spelling {o : Outline} {ts : List Token} {before? : Option Token.Kind} (hvalid : o.Valid)
    (h : o.Spelling (ts.map (·.lexeme))) (hts : Classified before? ts) :
    RegionSyntax (List.zipWith Declaration.build o.structs (places ts)) o.exports ts ∧
      (List.zipWith Declaration.build o.structs (places ts)).map Struct.declaration = o.structs := by
  generalize hws : ts.map (·.lexeme) = ws at h
  cases h with
  | @intro ds wss name h =>
    simp only [List.map_eq_append_iff, List.map_eq_cons_iff, List.map_eq_nil_iff] at hws
    obtain ⟨us, _, rfl, hstructs, keyword, _, rfl, hkeyword, t, _, rfl, rfl, rfl⟩ := hws
    obtain ⟨uss, rfl, hss, hlength⟩ := structSyntax_of_spellings h hstructs hts.append_left
      fun d hd => hvalid.declaration_legible hd
    obtain ⟨last?, hlast⟩ := hts.of_append
    have hexports : keyword.kind = .keyword .exports := hlast.kind_of_keyword hkeyword
    have hrest := hlast.tail
    rw [hexports] at hrest
    obtain ⟨d, hd, hname⟩ : ∃ d ∈ ds, d.name = t.lexeme := List.mem_map.1 hvalid.exported
    have hnameable : Nameable t.lexeme := hname ▸ hvalid.nameable d hd
    have hkind := hrest.kind_of_name hnameable.1.identifier hnameable.ofText?_eq_none
    have hspelled : keyword.isSpelled Keyword.exports.text = true := hlast.isSpelled hkeyword
    have hnone : places [keyword, t] = [] := by
      apply places_of_outside
      intro u hu
      simp only [List.mem_cons, List.not_mem_nil, or_false] at hu
      rcases hu with rfl | rfl
      · exact isSpelled_eq_false_of_ne hspelled (by decide)
      · exact isSpelled_keyword_eq_false (hts.regular u (by simp)) (by simp [hkind]) .struct
    have hdeclarations := declarations_zipWith_build hlength
    have hnames : (List.zipWith Declaration.build ds (places uss.flatten)).map (·.name) = ds.map (·.name) := by
      rw [← congrArg (List.map Declaration.name) hdeclarations, List.map_map]
      rfl
    rw [places_append, hnone, List.append_nil]
    refine ⟨.intro ?_ hss hspelled hkind ?_ ?_, hdeclarations⟩
    · rintro hnil
      rw [hnil] at hdeclarations
      simp [← hdeclarations] at hd
    · rw [hnames]
      exact hvalid.nodup
    · rw [hnames]
      exact hvalid.exported

end Schema

end BufferSchema
