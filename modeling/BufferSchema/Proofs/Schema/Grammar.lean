import BufferSchema.Proofs.Naming
import BufferSchema.Schema.Parser
import Mathlib.Data.List.TakeWhile

/-!
# The grammar of types and fields

The functions that read a schema take tokens and return what is left of them. Here each of them is
tied to a rule of a grammar: it succeeds exactly when the tokens start with what the rule lists,
and it leaves exactly the rest. So nothing is skipped inside a struct and nothing is read twice.
-/

namespace BufferSchema.Schema.Parser

open Text (Position)
open Token (first)
open Name (Faultless)

theorem bind_eq_ok_iff {ε α β : Type} {x : Except ε α} {f : α → Except ε β} {b : β} :
    (x >>= f) = .ok b ↔ ∃ a, x = .ok a ∧ f a = .ok b := by
  cases x with
  | error e => simp [bind, Except.bind]
  | ok a => simp [bind, Except.bind]

/-- A token that names a type. -/
structure NamesType (t : Token) : Prop where
  faultless : Faultless t.lexeme
  kind : t.kind = .typeName

/-- The tokens of a type. -/
inductive TypeSyntax : TypeRef → List Token → Prop where
  | scalar {t : Token} (ht : NamesType t) : TypeSyntax ⟨.ofName t.lexeme, .scalar⟩ [t]
  | fixedArray {opening size closing t : Token} {count : Nat} (hopen : opening.isSpelled "[" = true)
      (hsize : size.kind = .int) (hcount : arraySize? size.lexeme = some count)
      (hclose : closing.isSpelled "]" = true) (ht : NamesType t) :
      TypeSyntax ⟨.ofName t.lexeme, .fixedArray count⟩ [opening, size, closing, t]
  | dynamicArray {opening closing t : Token} (hopen : opening.isSpelled "[" = true)
      (hkind : closing.kind ≠ .int) (hclose : closing.isSpelled "]" = true) (ht : NamesType t) :
      TypeSyntax ⟨.ofName t.lexeme, .dynamicArray⟩ [opening, closing, t]
  | map {opening t closing word : Token} {shape : Shape} (hopen : opening.isSpelled "\x7b" = true)
      (ht : NamesType t) (hclose : closing.isSpelled "\x7d" = true) (hword : mapShape? word = some shape) :
      TypeSyntax ⟨.ofName t.lexeme, shape⟩ [opening, t, closing, word]

/-- The tokens of a field, its keyword in front. -/
inductive FieldSyntax : Field → List Token → Prop where
  | plain {keyword name : Token} {type : TypeRef} {us : List Token}
      (hkeyword : keyword.isSpelled Keyword.field.text = true) (hname : Faultless name.lexeme)
      (hkind : name.kind = .name .field) (htype : TypeSyntax type us) :
      FieldSyntax ⟨name.lexeme, type⟩ (keyword :: name :: us)
  | colon {keyword name colon : Token} {type : TypeRef} {us : List Token}
      (hkeyword : keyword.isSpelled Keyword.field.text = true) (hname : Faultless name.lexeme)
      (hkind : name.kind = .name .field) (hcolon : colon.isSpelled ":" = true)
      (htype : TypeSyntax type us) :
      FieldSyntax ⟨name.lexeme, type⟩ (keyword :: name :: colon :: us)

/-- The tokens of a struct that has fields. The fields are pushed one after the other. -/
inductive StructSyntax : Struct → List Token → Prop where
  | intro {keyword name opening closing : Token} {fs : List Field} {uss : List (List Token)}
      (hkeyword : keyword.isSpelled Keyword.struct.text = true) (hname : Faultless name.lexeme)
      (hkind : name.kind = .name .struct) (hbuiltin : Builtin.ofName? name.lexeme = none)
      (hopen : opening.isSpelled "\x7b" = true) (hne : fs ≠ []) (hfields : List.Forall₂ FieldSyntax fs uss)
      (hnodup : (fs.map (·.name)).Nodup) (hclose : closing.isSpelled "\x7d" = true) :
      StructSyntax (fs.foldl Struct.push { name := name.lexeme, position := keyword.position })
        (keyword :: name :: opening :: (uss.flatten ++ [closing]))

/-! A token whose text is faultless is no mark. -/

theorem isSpelled_mark_eq_false {t : Token} {c : Char} (h : Faultless t.lexeme)
    (hc : Text.isNamePart c = false) : t.isSpelled (String.ofList [c]) = false := by
  cases hs : t.isSpelled (String.ofList [c]) with
  | false => rfl
  | true =>
    have hl := (Token.isSpelled_iff.1 hs).2
    have := h.identifier.isNamePart c (by simp [hl])
    simp [this] at hc

/-- A token has one spelling. -/
theorem isSpelled_unique {t : Token} {a b : String} (ha : t.isSpelled a = true) (hb : t.isSpelled b = true) :
    a = b :=
  (Token.isSpelled_iff.1 ha).2.symm.trans (Token.isSpelled_iff.1 hb).2

theorem isSpelled_eq_false_of_ne {t : Token} {a b : String} (ha : t.isSpelled a = true) (hab : a ≠ b) :
    t.isSpelled b = false := by
  cases hb : t.isSpelled b with
  | false => rfl
  | true => exact absurd (isSpelled_unique ha hb) hab

/-! Types. -/

/-- The name of a type is the text of a token of that kind. -/
theorem typeName_eq_ok_iff {t : Token} {name : String} :
    typeName t = .ok name ↔ NamesType t ∧ name = t.lexeme := by
  unfold typeName
  rw [bind_eq_ok_iff]
  constructor
  · rintro ⟨⟨⟩, hcheck, h⟩
    split at h
    · next hkind =>
      exact ⟨⟨Name.check_eq_ok_iff_faultless.1 hcheck, hkind⟩, (Except.ok.inj h).symm⟩
    · cases h
  · rintro ⟨ht, rfl⟩
    exact ⟨(), Name.check_eq_ok_iff_faultless.2 ht.faultless, if_pos ht.kind⟩

theorem typeName_first_eq_ok_iff {ts : List Token} {name : String} :
    typeName (first ts) = .ok name ↔ ∃ t rest, ts = t :: rest ∧ NamesType t ∧ name = t.lexeme := by
  rw [typeName_eq_ok_iff]
  cases ts with
  | nil =>
    constructor
    · rintro ⟨ht, -⟩
      exact absurd ht.kind (by simp [Token.endOfInput])
    · rintro ⟨t, rest, h, -⟩
      cases h
  | cons t rest => simp

theorem arrayElement_eq_ok_iff {shape : Shape} {ts rest : List Token} {type : TypeRef} :
    arrayElement shape ts = .ok (type, rest) ↔
      ∃ t, ts = t :: rest ∧ NamesType t ∧ type = ⟨.ofName t.lexeme, shape⟩ := by
  unfold arrayElement
  rw [bind_eq_ok_iff]
  constructor
  · rintro ⟨name, hname, h⟩
    obtain ⟨t, rest', rfl, ht, rfl⟩ := typeName_first_eq_ok_iff.1 hname
    simp only [List.tail_cons, Except.ok.injEq, Prod.mk.injEq] at h
    obtain ⟨rfl, rfl⟩ := h
    exact ⟨t, rfl, ht, rfl⟩
  · rintro ⟨t, rfl, ht, rfl⟩
    exact ⟨t.lexeme, typeName_first_eq_ok_iff.2 ⟨t, rest, rfl, ht, rfl⟩, rfl⟩

theorem typeSyntax_of_arrayType {opening : Token} {ts rest : List Token} {type : TypeRef}
    (hopen : opening.isSpelled "[" = true) (h : arrayType opening.position ts = .ok (type, rest)) :
    ∃ us, TypeSyntax type (opening :: us) ∧ ts = us ++ rest := by
  simp only [arrayType] at h
  split at h
  · next hsize =>
    split at h
    · cases h
    · next count hcount =>
      split at h
      · next hclose =>
        obtain ⟨t, ht, htype, rfl⟩ := arrayElement_eq_ok_iff.1 h
        obtain ⟨closing, rest', htail, hclose⟩ := Token.exists_cons_of_isSpelled hclose
        obtain ⟨size, ts, rfl⟩ : ∃ size us, ts = size :: us := by
          cases ts with
          | nil => cases htail
          | cons size us => exact ⟨size, us, rfl⟩
        simp only [List.tail_cons] at htail ht
        subst htail
        rw [List.tail_cons] at ht
        subst ht
        exact ⟨[size, closing, t], .fixedArray hopen hsize hcount hclose htype, rfl⟩
      · cases h
  · next hsize =>
    split at h
    · next hclose =>
      obtain ⟨t, ht, htype, rfl⟩ := arrayElement_eq_ok_iff.1 h
      obtain ⟨closing, rest', rfl, hclose⟩ := Token.exists_cons_of_isSpelled hclose
      rw [List.tail_cons] at ht
      subst ht
      exact ⟨[closing, t], .dynamicArray hopen hsize hclose htype, rfl⟩
    · cases h

theorem typeSyntax_of_mapType {opening : Token} {ts rest : List Token} {type : TypeRef}
    (hopen : opening.isSpelled "\x7b" = true) (h : mapType opening.position ts = .ok (type, rest)) :
    ∃ us, TypeSyntax type (opening :: us) ∧ ts = us ++ rest := by
  simp only [mapType] at h
  split at h
  · cases h
  · split at h
    · cases h
    · next hopened =>
      split at h
      · cases h
      · next shape hword =>
        obtain ⟨name, hname, h⟩ := bind_eq_ok_iff.1 h
        obtain ⟨t, ts', rfl, ht, rfl⟩ := typeName_first_eq_ok_iff.1 hname
        rw [List.tail_cons] at hopened hword h
        have hclose : (first ts').isSpelled "\x7d" = true := by simpa using hopened
        obtain ⟨closing, ts'', rfl, hclose⟩ := Token.exists_cons_of_isSpelled hclose
        rw [List.tail_cons] at hword h
        cases ts'' with
        | nil => simp [mapShape?] at hword
        | cons word ts''' =>
          simp only [List.tail_cons, Except.ok.injEq, Prod.mk.injEq] at h
          obtain ⟨rfl, rfl⟩ := h
          exact ⟨[t, closing, word], .map hopen ht hclose hword, rfl⟩

/-- A type that is read is one of the grammar, and what is left stands right behind it. -/
theorem typeSyntax_of_typeRef {ts rest : List Token} {type : TypeRef}
    (h : typeRef ts = .ok (type, rest)) : ∃ us, TypeSyntax type us ∧ ts = us ++ rest := by
  simp only [typeRef] at h
  split at h
  · next hopen =>
    obtain ⟨opening, ts, rfl, hopen⟩ := Token.exists_cons_of_isSpelled hopen
    obtain ⟨us, hus, rfl⟩ := typeSyntax_of_mapType hopen h
    exact ⟨opening :: us, hus, rfl⟩
  · split at h
    · next hopen =>
      obtain ⟨opening, ts, rfl, hopen⟩ := Token.exists_cons_of_isSpelled hopen
      obtain ⟨us, hus, rfl⟩ := typeSyntax_of_arrayType hopen h
      exact ⟨opening :: us, hus, rfl⟩
    · obtain ⟨name, hname, h⟩ := bind_eq_ok_iff.1 h
      obtain ⟨t, ts, rfl, ht, rfl⟩ := typeName_first_eq_ok_iff.1 hname
      simp only [List.tail_cons, Except.ok.injEq, Prod.mk.injEq] at h
      obtain ⟨rfl, rfl⟩ := h
      exact ⟨[t], .scalar ht, rfl⟩

/-- A type of the grammar is read, whatever stands behind it. -/
theorem typeRef_of_typeSyntax {us : List Token} {type : TypeRef} (h : TypeSyntax type us)
    (rest : List Token) : typeRef (us ++ rest) = .ok (type, rest) := by
  cases h with
  | @scalar t ht =>
    have hbrace : t.isSpelled "\x7b" = false := isSpelled_mark_eq_false ht.faultless (by decide)
    have hbracket : t.isSpelled "[" = false := isSpelled_mark_eq_false ht.faultless (by decide)
    have hname := typeName_eq_ok_iff.2 ⟨ht, rfl⟩
    simp [typeRef, hbrace, hbracket, hname, bind, Except.bind]
  | @fixedArray opening size closing t count hopen hsize hcount hclose ht =>
    have hbrace : opening.isSpelled "\x7b" = false := isSpelled_eq_false_of_ne hopen (by decide)
    have hname := typeName_eq_ok_iff.2 ⟨ht, rfl⟩
    simp [typeRef, arrayType, arrayElement, hbrace, hopen, hsize, hcount, hclose, hname, bind, Except.bind]
  | @dynamicArray opening closing t hopen hkind hclose ht =>
    have hbrace : opening.isSpelled "\x7b" = false := isSpelled_eq_false_of_ne hopen (by decide)
    have hname := typeName_eq_ok_iff.2 ⟨ht, rfl⟩
    simp [typeRef, arrayType, arrayElement, hbrace, hopen, hkind, hclose, hname, bind, Except.bind]
  | @map opening t closing word shape hopen ht hclose hword =>
    have hbrace : t.isSpelled "\x7d" = false := isSpelled_mark_eq_false ht.faultless (by decide)
    have hname := typeName_eq_ok_iff.2 ⟨ht, rfl⟩
    simp [typeRef, mapType, hbrace, hopen, hclose, hword, hname, bind, Except.bind]

/-! Fields. -/

/-- No type starts with a colon, so it makes no difference that one is skipped in front. -/
theorem isSpelled_colon_eq_false_of_typeSyntax {us : List Token} {type : TypeRef}
    (h : TypeSyntax type us) (rest : List Token) : (first (us ++ rest)).isSpelled ":" = false := by
  cases h with
  | scalar ht => exact isSpelled_mark_eq_false ht.faultless (by decide)
  | fixedArray hopen => exact isSpelled_eq_false_of_ne hopen (by decide)
  | dynamicArray hopen => exact isSpelled_eq_false_of_ne hopen (by decide)
  | map hopen => exact isSpelled_eq_false_of_ne hopen (by decide)

/-- A field that is read is one of the grammar, and what is left stands right behind it. -/
theorem fieldSyntax_of_field {keyword : Token} {place : Position} {ts rest : List Token} {f : Field}
    (hkeyword : keyword.isSpelled Keyword.field.text = true) (h : field place ts = .ok (f, rest)) :
    ∃ us, FieldSyntax f (keyword :: us) ∧ ts = us ++ rest := by
  unfold field at h
  obtain ⟨⟨⟩, hcheck, h⟩ := bind_eq_ok_iff.1 h
  have hname := Name.check_eq_ok_iff_faultless.1 hcheck
  split at h
  · next hkind =>
    obtain ⟨⟨type, rest'⟩, htype, h⟩ := bind_eq_ok_iff.1 h
    simp only [Except.ok.injEq, Prod.mk.injEq] at h
    obtain ⟨rfl, rfl⟩ := h
    obtain ⟨us, hus, hts⟩ := typeSyntax_of_typeRef htype
    cases ts with
    | nil => simp [Token.endOfInput] at hkind
    | cons name ts =>
      rw [List.tail_cons] at hts
      unfold skipColon at hts
      split at hts
      · next hcolon =>
        obtain ⟨colon, ts, rfl, hcolon⟩ := Token.exists_cons_of_isSpelled hcolon
        rw [List.tail_cons] at hts
        subst hts
        exact ⟨name :: colon :: us, .colon hkeyword hname hkind hcolon hus, rfl⟩
      · subst hts
        exact ⟨name :: us, .plain hkeyword hname hkind hus, rfl⟩
  · cases h

/-- A field of the grammar is read, whatever stands behind it and wherever its keyword stands. -/
theorem field_of_fieldSyntax {keyword : Token} {us : List Token} {f : Field}
    (h : FieldSyntax f (keyword :: us)) (place : Position) (rest : List Token) :
    field place (us ++ rest) = .ok (f, rest) := by
  cases h with
  | @plain _ name type us _ hname hkind htype =>
    have hcheck := Name.check_eq_ok_iff_faultless.2 hname
    have hcolon := isSpelled_colon_eq_false_of_typeSyntax htype rest
    have hread := typeRef_of_typeSyntax htype rest
    simp [field, skipColon, hcheck, hkind, hcolon, hread, bind, Except.bind]
  | @colon _ name colon type us _ hname hkind hcolon htype =>
    have hcheck := Name.check_eq_ok_iff_faultless.2 hname
    have hread := typeRef_of_typeSyntax htype rest
    simp [field, skipColon, hcheck, hkind, hcolon, hread, bind, Except.bind]

theorem keyword_of_fieldSyntax {us : List Token} {f : Field} (h : FieldSyntax f us) :
    ∃ keyword us', us = keyword :: us' ∧ keyword.isSpelled Keyword.field.text = true := by
  cases h with
  | plain hkeyword => exact ⟨_, _, rfl, hkeyword⟩
  | colon hkeyword => exact ⟨_, _, rfl, hkeyword⟩

theorem field?_isSome_iff {s : Struct} {name : String} :
    (s.field? name).isSome = true ↔ name ∈ s.fields.map (·.name) := by
  simp [Struct.field?]

/-- The names of fields stay distinct if the one that is pushed has a new name. -/
theorem nodup_names_push {s : Struct} {f : Field} :
    ((s.push f).fields.map (·.name)).Nodup ↔
      (s.fields.map (·.name)).Nodup ∧ f.name ∉ s.fields.map (·.name) := by
  rw [Struct.fields_push, List.map_append, List.nodup_append]
  constructor
  · rintro ⟨hs, -, hd⟩
    exact ⟨hs, fun hmem => hd f.name hmem f.name (by simp) rfl⟩
  · rintro ⟨hs, hmem⟩
    refine ⟨hs, by simp, fun a ha b hb => ?_⟩
    obtain rfl : b = f.name := by simpa using hb
    rintro rfl
    exact hmem ha

theorem fields_foldl_push (s : Struct) (fs : List Field) : (fs.foldl Struct.push s).fields = s.fields ++ fs := by
  induction fs generalizing s with
  | nil => simp
  | cons f fs ih => rw [List.foldl_cons, ih, Struct.fields_push, List.append_assoc, List.singleton_append]

theorem name_foldl_push (s : Struct) (fs : List Field) : (fs.foldl Struct.push s).name = s.name := by
  induction fs generalizing s with
  | nil => rfl
  | cons f fs ih => rw [List.foldl_cons, ih, Struct.name_push]

/-- The fields that are read are those up to the closing brace. -/
theorem fieldSyntax_of_fields {s s' : Struct} {place : Position} {ts rest : List Token}
    (h : fields s place ts = .ok (s', rest)) (hs : (s.fields.map (·.name)).Nodup) :
    ∀ keyword : Token, keyword.isSpelled Keyword.field.text = true →
      ∃ fs uss closing, fs ≠ [] ∧ List.Forall₂ FieldSyntax fs uss ∧ closing.isSpelled "\x7d" = true ∧
        keyword :: ts = uss.flatten ++ closing :: rest ∧ s' = fs.foldl Struct.push s ∧
        (s'.fields.map (·.name)).Nodup := by
  fun_induction fields s place ts with
  | case1 => cases h
  | case2 => cases h
  | case3 s place ts f behind hf hnew next hclose =>
    intro keyword hkeyword
    obtain ⟨us, hus, rfl⟩ := fieldSyntax_of_field hkeyword hf
    obtain ⟨closing, behind, rfl, hclose⟩ := Token.exists_cons_of_isSpelled hclose
    simp only [List.tail_cons, Except.ok.injEq, Prod.mk.injEq] at h
    obtain ⟨rfl, rfl⟩ := h
    refine ⟨[f], [keyword :: us], closing, by simp, .cons hus .nil, hclose, by simp, rfl, ?_⟩
    exact nodup_names_push.2 ⟨hs, fun hmem => hnew (field?_isSome_iff.2 hmem)⟩
  | case4 s place ts f behind hf hnew next _ hnext ih =>
    intro keyword hkeyword
    obtain ⟨us, hus, rfl⟩ := fieldSyntax_of_field hkeyword hf
    obtain ⟨keyword', behind, rfl, hkeyword'⟩ := Token.exists_cons_of_isSpelled hnext
    have hs' := nodup_names_push.2 ⟨hs, fun hmem => hnew (field?_isSome_iff.2 hmem)⟩
    obtain ⟨fs, uss, closing, -, hfs, hclose, hts, hfold, hnodup⟩ := ih h hs' keyword' hkeyword'
    rw [List.tail_cons] at hts
    refine ⟨f :: fs, (keyword :: us) :: uss, closing, by simp, .cons hus hfs, hclose, ?_, hfold, hnodup⟩
    simp [hts]
  | case5 => cases h

/-- Fields of the grammar with distinct names are read, up to the brace that closes them. -/
theorem fields_of_fieldSyntax {fs : List Field} {uss : List (List Token)} {keyword closing : Token}
    {s : Struct} {ts rest : List Token} (hfs : List.Forall₂ FieldSyntax fs uss) (hne : fs ≠ [])
    (hclose : closing.isSpelled "\x7d" = true) (hts : keyword :: ts = uss.flatten ++ closing :: rest)
    (hnodup : ((fs.foldl Struct.push s).fields.map (·.name)).Nodup) (place : Position) :
    fields s place ts = .ok (fs.foldl Struct.push s, rest) := by
  induction hfs generalizing s keyword ts place with
  | nil => exact absurd rfl hne
  | @cons f us fs uss hus hfs ih =>
    obtain ⟨keyword', us, rfl, -⟩ := keyword_of_fieldSyntax hus
    simp only [List.flatten_cons, List.cons_append, List.append_assoc, List.cons.injEq] at hts
    obtain ⟨rfl, rfl⟩ := hts
    have hread := field_of_fieldSyntax hus place (uss.flatten ++ closing :: rest)
    have hnew : ¬ (s.field? f.name).isSome = true := by
      rw [fields_foldl_push, List.append_cons, List.map_append, ← Struct.fields_push] at hnodup
      rw [field?_isSome_iff]
      exact (nodup_names_push.1 (List.nodup_append.1 hnodup).1).2
    rw [fields]
    split
    · next hread' => simp [hread] at hread'
    · next f' behind hread' =>
      obtain ⟨rfl, rfl⟩ := Prod.mk.inj (Except.ok.inj (hread.symm.trans hread'))
      rw [if_neg hnew]
      cases hfs with
      | nil => simp [hclose]
      | @cons g vs gs vss hvs hgs =>
        obtain ⟨next, vs, rfl, hnext⟩ := keyword_of_fieldSyntax hvs
        have hbrace : next.isSpelled "\x7d" = false := isSpelled_eq_false_of_ne hnext (by decide)
        have hrest := @ih next (s.push f) (vs ++ (vss.flatten ++ closing :: rest)) (by simp) (by simp) hnodup
          next.position
        simpa [hbrace, hnext] using hrest

end BufferSchema.Schema.Parser
