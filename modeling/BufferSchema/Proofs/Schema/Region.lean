import BufferSchema.Proofs.Schema.Structs
import BufferSchema.Proofs.Token.Classified

/-!
# The part of a text that defines the schema

Reading goes from the first `struct` of a text through the name behind its only `exports`. This region
is all that matters: it is used up by the grammar, and what stands in front of it or behind it changes
nothing, as long as it holds no `struct` and no `exports` of its own.
-/

namespace BufferSchema

open Token (first)

/-- A token that neither opens a struct nor exports one. -/
def Token.Outside (t : Token) : Prop :=
  t.isSpelled Keyword.struct.text = false ∧ t.isSpelled Keyword.exports.text = false

namespace Schema.Parser

/-- The tokens of the structs `ss`, directly behind each other, and of the export of one of them. -/
inductive RegionSyntax : List Struct → String → List Token → Prop where
  | intro {ss : List Struct} {uss : List (List Token)} {keyword name : Token} (hss : ss ≠ [])
      (hstructs : List.Forall₂ StructSyntax ss uss) (hkeyword : keyword.isSpelled Keyword.exports.text = true)
      (hname : name.kind = .name .exports) (hnodup : (ss.map (·.name)).Nodup)
      (hmem : name.lexeme ∈ ss.map (·.name)) :
      RegionSyntax ss name.lexeme (uss.flatten ++ [keyword, name])

theorem isSpelled_keyword_eq_false {t : Token} (h : t.Regular) (hkind : ∀ k, t.kind ≠ .keyword k)
    (k : Keyword) : t.isSpelled k.text = false := by
  cases hs : t.isSpelled k.text with
  | false => rfl
  | true => exact absurd (h k (Token.isSpelled_iff.1 hs).2) (hkind k)

theorem namesType_not_keyword {t : Token} (h : NamesType t) (hreg : t.Regular) (k : Keyword) :
    t.isSpelled k.text = false :=
  isSpelled_keyword_eq_false hreg (by simp [h.kind]) k

/-- No keyword stands in a type, as keywords name no types. -/
theorem typeSyntax_not_keyword {type : TypeRef} {us : List Token} (h : TypeSyntax type us)
    (hreg : ∀ t ∈ us, t.Regular) (k : Keyword) : ∀ t ∈ us, t.isSpelled k.text = false := by
  have hmark : ∀ {t : Token} {text : String}, t.isSpelled text = true → text ≠ k.text →
      t.isSpelled k.text = false := isSpelled_eq_false_of_ne
  cases h with
  | @scalar t ht => simpa using namesType_not_keyword ht (hreg t (by simp)) k
  | @fixedArray _ size _ t _ hopen hsize _ hclose ht =>
    have h₁ := hmark hopen (by cases k <;> decide)
    have h₂ := isSpelled_keyword_eq_false (hreg size (by simp)) (by simp [hsize]) k
    have h₃ := hmark hclose (by cases k <;> decide)
    have h₄ := namesType_not_keyword ht (hreg t (by simp)) k
    simp [h₁, h₂, h₃, h₄]
  | @dynamicArray _ _ t hopen _ hclose ht =>
    have h₁ := hmark hopen (by cases k <;> decide)
    have h₂ := hmark hclose (by cases k <;> decide)
    have h₃ := namesType_not_keyword ht (hreg t (by simp)) k
    simp [h₁, h₂, h₃]
  | @map _ t _ word shape hopen ht hclose hword =>
    have h₁ := hmark hopen (by cases k <;> decide)
    have h₂ := namesType_not_keyword ht (hreg t (by simp)) k
    have h₃ := hmark hclose (by cases k <;> decide)
    have h₄ : word.isSpelled k.text = false := by
      unfold mapShape? at hword
      split at hword
      · next hmap => exact hmark hmap (by cases k <;> decide)
      · split at hword
        · next hmap => exact hmark hmap (by cases k <;> decide)
        · cases hword
    simp [h₁, h₂, h₃, h₄]

/-- Only the first token of a field is a keyword. -/
theorem fieldSyntax_not_keyword {f : Field} {keyword : Token} {us : List Token} (h : FieldSyntax f (keyword :: us))
    (hreg : ∀ t ∈ us, t.Regular) (k : Keyword) : ∀ t ∈ us, t.isSpelled k.text = false := by
  cases h with
  | @plain _ name type us _ _ hkind htype =>
    have hname := isSpelled_keyword_eq_false (hreg name (by simp)) (by simp [hkind]) k
    have htypes := typeSyntax_not_keyword htype (fun t ht => hreg t (by simp [ht])) k
    exact List.forall_mem_cons.2 ⟨hname, htypes⟩
  | @colon _ name colon type us _ _ hkind hcolon htype =>
    have hname := isSpelled_keyword_eq_false (hreg name (by simp)) (by simp [hkind]) k
    have hmark : colon.isSpelled k.text = false := isSpelled_eq_false_of_ne hcolon (by cases k <;> decide)
    have htypes := typeSyntax_not_keyword htype (fun t ht => hreg t (by simp [ht])) k
    exact List.forall_mem_cons.2 ⟨hname, List.forall_mem_cons.2 ⟨hmark, htypes⟩⟩

theorem fieldSyntax_outside {f : Field} {us : List Token} (h : FieldSyntax f us)
    (hreg : ∀ t ∈ us, t.Regular) : ∀ t ∈ us, t.Outside := by
  obtain ⟨keyword, us, rfl, hkeyword⟩ := keyword_of_fieldSyntax h
  have hlater := fieldSyntax_not_keyword h fun t ht => hreg t (List.mem_cons_of_mem _ ht)
  refine List.forall_mem_cons.2 ⟨?_, fun t ht => ⟨hlater .struct t ht, hlater .exports t ht⟩⟩
  exact ⟨isSpelled_eq_false_of_ne hkeyword (by decide), isSpelled_eq_false_of_ne hkeyword (by decide)⟩

theorem outside_of_mem_flatten {fs : List Field} {uss : List (List Token)}
    (h : List.Forall₂ FieldSyntax fs uss) (hreg : ∀ t ∈ uss.flatten, t.Regular) :
    ∀ t ∈ uss.flatten, t.Outside := by
  induction h with
  | nil => simp
  | @cons f us fs uss hus _ ih =>
    simp only [List.flatten_cons, List.mem_append] at hreg ⊢
    rintro t (ht | ht)
    · exact fieldSyntax_outside hus (fun t ht => hreg t (.inl ht)) t ht
    · exact ih (fun t ht => hreg t (.inr ht)) t ht

/-- Only the first token of a struct opens one, and none exports one. -/
theorem structSyntax_outside {s : Struct} {keyword : Token} {us : List Token}
    (h : StructSyntax s (keyword :: us)) (hreg : ∀ t ∈ us, t.Regular) : ∀ t ∈ us, t.Outside := by
  cases h with
  | @intro _ name opening closing fs uss hkeyword hname hkind hbuiltin hopen hne hfields hnodup hclose =>
    have hnames := isSpelled_keyword_eq_false (hreg name (by simp)) (by simp [hkind])
    have hflat := outside_of_mem_flatten hfields fun t ht => hreg t (by simp [ht])
    intro t ht
    simp only [List.mem_cons, List.mem_append, List.not_mem_nil, or_false] at ht
    rcases ht with rfl | rfl | ht | rfl
    · exact ⟨hnames .struct, hnames .exports⟩
    · exact ⟨isSpelled_eq_false_of_ne hopen (by decide), isSpelled_eq_false_of_ne hopen (by decide)⟩
    · exact hflat t ht
    · exact ⟨isSpelled_eq_false_of_ne hclose (by decide), isSpelled_eq_false_of_ne hclose (by decide)⟩

theorem no_exports_in_structs {ss : List Struct} {uss : List (List Token)}
    (h : List.Forall₂ StructSyntax ss uss) (hreg : ∀ t ∈ uss.flatten, t.Regular) :
    ∀ t ∈ uss.flatten, t.isSpelled Keyword.exports.text = false := by
  induction h with
  | nil => simp
  | @cons s us ss uss hus _ ih =>
    obtain ⟨keyword, us, rfl, hkeyword⟩ := keyword_of_structSyntax hus
    simp only [List.flatten_cons, List.mem_append, List.mem_cons] at hreg ⊢
    rintro t ((rfl | ht) | ht)
    · exact isSpelled_eq_false_of_ne hkeyword (by decide)
    · exact (structSyntax_outside hus (fun t ht => hreg t (.inl (.inr ht))) t ht).2
    · exact ih (fun t ht => hreg t (.inr ht)) t ht

theorem name_of_structSyntax {s : Struct} {us : List Token} (h : StructSyntax s us) :
    Name.Faultless s.name := by
  cases h with
  | intro _ hname => rwa [name_foldl_push]

theorem faultless_of_mem_names {ss : List Struct} {uss : List (List Token)}
    (h : List.Forall₂ StructSyntax ss uss) {name : String} (hmem : name ∈ ss.map (·.name)) :
    Name.Faultless name := by
  induction h with
  | nil => cases hmem
  | cons hus _ ih =>
    rw [List.map_cons, List.mem_cons] at hmem
    rcases hmem with rfl | hmem
    · exact name_of_structSyntax hus
    · exact ih hmem

theorem exists_field_keyword {s : Struct} {us : List Token} (h : StructSyntax s us) :
    ∃ t ∈ us, t.isSpelled Keyword.field.text = true := by
  cases h with
  | intro _ _ _ _ _ hne hfields =>
    cases hfields with
    | nil => exact absurd rfl hne
    | cons hus _ =>
      obtain ⟨keyword, us, rfl, hkeyword⟩ := keyword_of_fieldSyntax hus
      exact ⟨keyword, by simp, hkeyword⟩

/-! The table of structs that differ in their names lists them as they come. -/

theorem entries_insertAll {known : Table Struct} {ss : List Struct}
    (h : (known.keys ++ ss.map (·.name)).Nodup) :
    (insertAll known ss).entries = known.entries ++ ss.map fun s => (s.name, s) := by
  induction ss generalizing known with
  | nil => simp [insertAll]
  | cons s ss ih =>
    have hnew : s.name ∉ known := fun hmem =>
      (List.nodup_append.1 h).2.2 s.name hmem s.name (by simp) rfl
    have hkeys : (known.insert s.name s).keys = known.keys ++ [s.name] := by
      rw [Table.keys_insert, if_neg hnew]
    have hentries : (known.insert s.name s).entries = known.entries ++ [(s.name, s)] := by
      unfold Table.insert
      rw [dif_neg (show s.name ∉ known.keys from hnew)]
    have hlater := @ih (known.insert s.name s) (by simpa [hkeys] using h)
    rw [hentries] at hlater
    simpa [insertAll] using hlater

theorem keys_insertAll {ss : List Struct} (h : (ss.map (·.name)).Nodup) :
    (insertAll ∅ ss).keys = ss.map (·.name) := by
  have hentries : (insertAll ∅ ss).entries = [] ++ ss.map fun s => (s.name, s) :=
    entries_insertAll (by simpa using h)
  simp [Table.keys, hentries, Function.comp_def]

theorem values_insertAll {ss : List Struct} (h : (ss.map (·.name)).Nodup) :
    (insertAll ∅ ss).values = ss := by
  have hentries : (insertAll ∅ ss).entries = [] ++ ss.map fun s => (s.name, s) :=
    entries_insertAll (by simpa using h)
  simp [Table.values, hentries, Function.comp_def]

/-- The exported name stands behind the only `exports` of a text. -/
theorem exportedName_eq_ok_iff {ts : List Token} {name : Token} :
    exportedName ts = .ok name ↔ ts.countP (·.isSpelled Keyword.exports.text) = 1 ∧
      name.kind = .name .exports ∧ name = first (ts.dropWhile (!·.isSpelled Keyword.exports.text)).tail := by
  simp only [exportedName]
  split
  · next h =>
    constructor
    · intro hname
      obtain rfl := Except.ok.inj hname
      exact ⟨h.1, h.2, rfl⟩
    · rintro ⟨-, -, rfl⟩
      rfl
  · next h =>
    constructor
    · intro hname
      cases hname
    · rintro ⟨hcount, hkind, rfl⟩
      exact absurd ⟨hcount, hkind⟩ h

end Schema.Parser

open Schema.Parser

namespace Schema

theorem ofTokens_eq_ok_iff {ts : List Token} {s : Schema} :
    ofTokens ⟨ts⟩ = .ok s ↔ ∃ name table, exportedName ts = .ok name ∧
      (∃ t ∈ ts, t.isSpelled Keyword.struct.text = true) ∧
      (∃ t ∈ ts, t.isSpelled Keyword.field.text = true) ∧ Parser.structs ∅ ts = .ok table ∧
      Name.Faultless name.lexeme ∧ name.lexeme ∈ table ∧ s = ⟨table, name.lexeme⟩ := by
  dsimp only [ofTokens]
  constructor
  · intro h
    split at h
    · cases h
    · obtain ⟨name, hname, h⟩ := bind_eq_ok_iff.1 h
      split at h
      · cases h
      · next hstruct =>
        split at h
        · cases h
        · next hfield =>
          obtain ⟨table, htable, h⟩ := bind_eq_ok_iff.1 h
          obtain ⟨⟨⟩, hcheck, h⟩ := bind_eq_ok_iff.1 h
          split at h
          · next hmem =>
            refine ⟨name, table, hname, ?_, ?_, htable, Name.check_eq_ok_iff_faultless.1 hcheck, hmem,
              (Except.ok.inj h).symm⟩
            · simpa using hstruct
            · simpa using hfield
          · cases h
  · rintro ⟨name, table, hname, hstruct, hfield, htable, hfaultless, hmem, rfl⟩
    have hne : ts.isEmpty = false := by
      obtain ⟨t, ht, -⟩ := hstruct
      cases ts with
      | nil => cases ht
      | cons => rfl
    have hcheck := Name.check_eq_ok_iff_faultless.2 hfaultless
    have hstruct : ts.any (·.isSpelled Keyword.struct.text) = true := by simpa using hstruct
    have hfield : ts.any (·.isSpelled Keyword.field.text) = true := by simpa using hfield
    simp [hne, hname, hstruct, hfield, htable, hcheck, hmem, bind, Except.bind]

/-- An accepted text is its region and, around it, tokens that neither open a struct nor export one. -/
theorem region_of_ofTokens {ts : List Token} {s : Schema} (h : ofTokens ⟨ts⟩ = .ok s) :
    ∃ before ss region after, ts = before ++ (region ++ after) ∧ RegionSyntax ss s.exports region ∧
      s.structs = insertAll ∅ ss ∧ (∀ t ∈ before, t.Outside) ∧ (∀ t ∈ after, t.Outside) := by
  obtain ⟨name, table, hname, hstruct, -, htable, -, hmem, rfl⟩ := ofTokens_eq_ok_iff.1 h
  obtain ⟨hcount, hkind, hfirst⟩ := exportedName_eq_ok_iff.1 hname
  obtain ⟨before, ss, uss, keyword, rest, rfl, hbefore, hss, hgrammar, hkeyword, hrest, rfl, hnodup⟩ :=
    structSyntax_of_structs htable hcount.le hstruct
  -- The only `exports` is the one behind the structs.
  simp only [List.countP_append, List.countP_cons, hkeyword, if_true] at hcount
  have hnone : ∀ us : List Token, us.countP (·.isSpelled Keyword.exports.text) = 0 →
      ∀ t ∈ us, t.isSpelled Keyword.exports.text = false := by
    intro us hzero t ht
    simpa using List.countP_eq_zero.1 hzero t ht
  have hbefore' := hnone before (by omega)
  have huss := hnone uss.flatten (by omega)
  have hrest' := hnone rest (by omega)
  have hskip : ∀ t ∈ before ++ uss.flatten, (!t.isSpelled Keyword.exports.text) = true := by
    intro t ht
    rcases List.mem_append.1 ht with ht | ht
    · simp [hbefore' t ht]
    · simp [huss t ht]
  rw [← List.append_assoc, List.dropWhile_append_of_pos hskip, List.dropWhile_cons_of_neg (by simp [hkeyword]),
    List.tail_cons] at hfirst
  cases rest with
  | nil =>
    subst hfirst
    simp [Token.endOfInput] at hkind
  | cons name' after =>
    obtain rfl : name = name' := hfirst
    refine ⟨before, ss, uss.flatten ++ [keyword, name], after, by simp, ?_, rfl,
      fun t ht => ⟨hbefore t ht, hbefore' t ht⟩,
      fun t ht => ⟨hrest t (by simp [ht]), hrest' t (by simp [ht])⟩⟩
    have hnodup : (ss.map (·.name)).Nodup := by simpa using hnodup
    have hmem : name.lexeme ∈ ss.map (·.name) := by rwa [Table.mem_iff, keys_insertAll hnodup] at hmem
    exact .intro hss hgrammar hkeyword hkind hnodup hmem

/-- What stands around the region makes no difference, as long as it opens and exports no struct. -/
theorem ofTokens_of_region {before region after : List Token} {ss : List Struct} {name : String}
    (hreg : ∀ t ∈ region, t.Regular) (h : RegionSyntax ss name region) (hbefore : ∀ t ∈ before, t.Outside)
    (hafter : ∀ t ∈ after, t.Outside) :
    ofTokens ⟨before ++ (region ++ after)⟩ = .ok ⟨insertAll ∅ ss, name⟩ := by
  cases h with
  | @intro uss keyword name hss hgrammar hkeyword hkind hnodup hmem =>
    have hname := isSpelled_keyword_eq_false (hreg name (by simp)) (by simp [hkind])
    have huss := no_exports_in_structs hgrammar fun t ht => hreg t (by simp [ht])
    have hskip : ∀ t ∈ before ++ uss.flatten, (!t.isSpelled Keyword.exports.text) = true := by
      intro t ht
      rcases List.mem_append.1 ht with ht | ht
      · simp [(hbefore t ht).2]
      · simp [huss t ht]
    have hzero : ∀ us : List Token, (∀ t ∈ us, t.isSpelled Keyword.exports.text = false) →
        us.countP (·.isSpelled Keyword.exports.text) = 0 := by
      intro us hus
      simpa [List.countP_eq_zero] using hus
    have hcount : (before ++ (uss.flatten ++ keyword :: name :: after)).countP
        (·.isSpelled Keyword.exports.text) = 1 := by
      simp [hkeyword, hname .exports, hzero before fun t ht => (hbefore t ht).2, hzero _ huss,
        hzero after fun t ht => (hafter t ht).2]
    have hexported : exportedName (before ++ (uss.flatten ++ keyword :: name :: after)) = .ok name := by
      refine exportedName_eq_ok_iff.2 ⟨hcount, hkind, ?_⟩
      rw [← List.append_assoc, List.dropWhile_append_of_pos hskip,
        List.dropWhile_cons_of_neg (by simp [hkeyword])]
      rfl
    have hrest : ∀ t ∈ name :: after, t.isSpelled Keyword.struct.text = false := by
      intro t ht
      rcases List.mem_cons.1 ht with rfl | ht
      · exact hname .struct
      · exact (hafter t ht).1
    have hstructs : Parser.structs ∅ (before ++ (uss.flatten ++ keyword :: name :: after)) =
        .ok (insertAll ∅ ss) :=
      structs_of_structSyntax (fun t ht => (hbefore t ht).1) hgrammar hkeyword hrest (by simpa using hnodup)
    obtain ⟨s, ss, us, uss', rfl, rfl, hus, -⟩ : ∃ s ss' us uss', ss = s :: ss' ∧ uss = us :: uss' ∧
        StructSyntax s us ∧ List.Forall₂ StructSyntax ss' uss' := by
      cases hgrammar with
      | nil => exact absurd rfl hss
      | cons hus hgrammar => exact ⟨_, _, _, _, rfl, rfl, hus, hgrammar⟩
    obtain ⟨opening, us, rfl, hopening⟩ := keyword_of_structSyntax hus
    obtain ⟨t, ht, hfield⟩ := exists_field_keyword hus
    have hmem' : name.lexeme ∈ insertAll ∅ (s :: ss) := by rwa [Table.mem_iff, keys_insertAll hnodup]
    have hfaultless := faultless_of_mem_names hgrammar hmem
    simp only [List.append_assoc, List.cons_append, List.nil_append]
    refine ofTokens_eq_ok_iff.2 ⟨name, _, hexported, ⟨opening, by simp, hopening⟩, ⟨t, ?_, hfield⟩, hstructs,
      hfaultless, hmem', rfl⟩
    simp only [List.flatten_cons, List.append_assoc, List.mem_append]
    exact .inr (.inl ht)

end Schema

end BufferSchema
