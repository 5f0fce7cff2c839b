import BufferSchema.Proofs.Schema.Grammar

/-!
# The grammar of structs

What is read as a struct is a name, an opening brace, fields and a closing brace. Structs are looked for by
their keyword, and yet none is missed and nothing stands between them: each is followed by the next one or by
the `exports`, of which there is only one.
-/

namespace BufferSchema.Schema.Parser

open Text (Position)
open Token (first)

theorem fields_ne_nil_of_structSyntax {s : Struct} {us : List Token} (h : StructSyntax s us) :
    s.fields ≠ [] := by
  cases h with
  | intro _ _ _ _ _ hne => simpa [fields_foldl_push] using hne

theorem keyword_of_structSyntax {s : Struct} {us : List Token} (h : StructSyntax s us) :
    ∃ keyword us', us = keyword :: us' ∧ keyword.isSpelled Keyword.struct.text = true := by
  cases h with
  | intro hkeyword => exact ⟨_, _, rfl, hkeyword⟩

/-- A body that has fields is read as the grammar says. An empty one is left to the caller. -/
theorem fieldSyntax_of_body {s s' : Struct} {ts rest : List Token} (hs : s.fields = [])
    (h : body s ts = .ok (s', rest)) (hne : s'.fields ≠ []) :
    ∃ fs uss closing, fs ≠ [] ∧ List.Forall₂ FieldSyntax fs uss ∧ closing.isSpelled "\x7d" = true ∧
      ts = uss.flatten ++ closing :: rest ∧ s' = fs.foldl Struct.push s ∧
      (s'.fields.map (·.name)).Nodup := by
  simp only [body] at h
  split at h
  · obtain ⟨rfl, -⟩ := Prod.mk.inj (Except.ok.inj h)
    exact absurd hs hne
  · split at h
    · next hkeyword =>
      obtain ⟨keyword, ts, rfl, hkeyword⟩ := Token.exists_cons_of_isSpelled hkeyword
      exact fieldSyntax_of_fields h (by simp [hs]) keyword hkeyword
    · split at h
      · cases h
      · obtain ⟨rfl, -⟩ := Prod.mk.inj (Except.ok.inj h)
        exact absurd hs hne

theorem body_of_fieldSyntax {fs : List Field} {uss : List (List Token)} {closing : Token} {s : Struct}
    (hfs : List.Forall₂ FieldSyntax fs uss) (hne : fs ≠ []) (hclose : closing.isSpelled "\x7d" = true)
    (hnodup : ((fs.foldl Struct.push s).fields.map (·.name)).Nodup) (rest : List Token) :
    body s (uss.flatten ++ closing :: rest) = .ok (fs.foldl Struct.push s, rest) := by
  cases hfs with
  | nil => exact absurd rfl hne
  | @cons f us fs uss hus hfs =>
    obtain ⟨keyword, us, rfl, hkeyword⟩ := keyword_of_fieldSyntax hus
    have hbrace : keyword.isSpelled "\x7d" = false := isSpelled_eq_false_of_ne hkeyword (by decide)
    have hread := @fields_of_fieldSyntax (f :: fs) ((keyword :: us) :: uss) keyword closing s
      (us ++ (uss.flatten ++ closing :: rest)) rest (.cons hus hfs) hne hclose (by simp) hnodup
      keyword.position
    simpa [body, hbrace, hkeyword] using hread

theorem structSyntax_of_struct {keyword : Token} {ts rest : List Token} {s : Struct}
    (hkeyword : keyword.isSpelled Keyword.struct.text = true)
    (h : struct keyword.position ts = .ok (s, rest)) (hne : s.fields ≠ []) :
    ∃ us, StructSyntax s (keyword :: us) ∧ ts = us ++ rest := by
  simp only [struct] at h
  obtain ⟨⟨⟩, hcheck, h⟩ := bind_eq_ok_iff.1 h
  have hname := Name.check_eq_ok_iff_faultless.1 hcheck
  split at h
  · next hkind =>
    split at h
    · cases h
    · next hbuiltin =>
      split at h
      · next hopen =>
        obtain ⟨fs, uss, closing, hfs, hfields, hclose, hts, rfl, hnodup⟩ := fieldSyntax_of_body rfl h hne
        obtain ⟨opening, behind, htail, hopen⟩ := Token.exists_cons_of_isSpelled hopen
        obtain ⟨name, ts, rfl⟩ : ∃ name us, ts = name :: us := by
          cases ts with
          | nil => cases htail
          | cons name us => exact ⟨name, us, rfl⟩
        rw [List.tail_cons] at htail hts
        subst htail
        rw [List.tail_cons] at hts
        subst hts
        rw [fields_foldl_push] at hnodup
        refine ⟨name :: opening :: (uss.flatten ++ [closing]), ?_, by simp⟩
        exact .intro hkeyword hname hkind (by simpa using hbuiltin) hopen hfs hfields hnodup hclose
      · cases h
  · cases h

theorem struct_of_structSyntax {keyword : Token} {us : List Token} {s : Struct}
    (h : StructSyntax s (keyword :: us)) (rest : List Token) :
    struct keyword.position (us ++ rest) = .ok (s, rest) := by
  cases h with
  | @intro _ name opening closing fs uss _ hname hkind hbuiltin hopen hne hfields hnodup hclose =>
    have hcheck := Name.check_eq_ok_iff_faultless.2 hname
    have hread := body_of_fieldSyntax (s := { name := name.lexeme, position := keyword.position })
      hfields hne hclose (by simpa [fields_foldl_push] using hnodup) rest
    simp [struct, hcheck, hkind, hbuiltin, hopen, hread, bind, Except.bind]

/-! All structs of a text. -/

/-- The table with the structs, one after the other. -/
def insertAll (known : Table Struct) (ss : List Struct) : Table Struct :=
  ss.foldl (fun table s => table.insert s.name s) known

theorem structs_of_no_struct {known : Table Struct} {ts : List Token}
    (h : ∀ t ∈ ts, t.isSpelled Keyword.struct.text = false) : structs known ts = .ok known := by
  have hdrop : ts.dropWhile (!·.isSpelled Keyword.struct.text) = [] := by
    rw [List.dropWhile_eq_nil_iff]
    intro t ht
    simp [h t ht]
  rw [structs]
  split
  · rfl
  · next heq => rw [hdrop] at heq; cases heq

theorem flatten_eq_keyword_cons {ss : List Struct} {uss : List (List Token)} (hss : ss ≠ [])
    (h : List.Forall₂ StructSyntax ss uss) :
    ∃ keyword us, uss.flatten = keyword :: us ∧ keyword.isSpelled Keyword.struct.text = true := by
  cases h with
  | nil => exact absurd rfl hss
  | cons hus _ =>
    obtain ⟨keyword, us, rfl, hkeyword⟩ := keyword_of_structSyntax hus
    exact ⟨keyword, _, rfl, hkeyword⟩

theorem split_at_struct {ts rest : List Token} {keyword : Token}
    (h : ts.dropWhile (!·.isSpelled Keyword.struct.text) = keyword :: rest) :
    keyword.isSpelled Keyword.struct.text = true ∧ ∃ before, ts = before ++ keyword :: rest ∧
      ∀ t ∈ before, t.isSpelled Keyword.struct.text = false := by
  constructor
  · simpa [h] using List.head?_dropWhile_not (!·.isSpelled Keyword.struct.text) ts
  · refine ⟨ts.takeWhile (!·.isSpelled Keyword.struct.text), ?_, fun t ht => ?_⟩
    · rw [← h, List.takeWhile_append_dropWhile]
    · simpa using List.mem_takeWhile_imp ht

/-- Behind the first struct there is an `exports`, since each struct is followed by another one or by it. -/
theorem exists_exports_of_structs {known table : Table Struct} {ts : List Token}
    (h : structs known ts = .ok table) (hany : ∃ t ∈ ts, t.isSpelled Keyword.struct.text = true) :
    ∃ t ∈ ts.dropWhile (!·.isSpelled Keyword.struct.text), t.isSpelled Keyword.exports.text = true := by
  fun_induction structs known ts with
  | case1 known ts hdrop =>
    obtain ⟨t, ht, hstruct⟩ := hany
    have := List.dropWhile_eq_nil_iff.1 hdrop t ht
    simp [hstruct] at this
  | case2 => cases h
  | case3 => cases h
  | case4 => cases h
  | case6 => cases h
  | case5 known ts keyword rest hdrop s behind hread _ next hfields hnext ih =>
    obtain ⟨us, -, rfl⟩ := structSyntax_of_struct (split_at_struct hdrop).1 hread (by simpa using hfields)
    obtain ⟨e, he, hexports⟩ : ∃ t ∈ behind, t.isSpelled Keyword.exports.text = true := by
      rcases (Bool.or_eq_true _ _).mp hnext with hnext | hnext
      · obtain ⟨t, behind, rfl, ht⟩ := Token.exists_cons_of_isSpelled hnext
        obtain ⟨e, he, hexports⟩ := ih h ⟨t, List.mem_cons_self, ht⟩
        exact ⟨e, (List.dropWhile_sublist _).subset he, hexports⟩
      · obtain ⟨e, behind, rfl, he⟩ := Token.exists_cons_of_isSpelled hnext
        exact ⟨e, List.mem_cons_self, he⟩
    exact ⟨e, by simp [hdrop, he], hexports⟩

/-- No struct stands behind the only `exports`. -/
theorem no_struct_behind_exports {known table : Table Struct} {e : Token} {ts : List Token}
    (h : structs known (e :: ts) = .ok table) (he : e.isSpelled Keyword.exports.text = true)
    (hcount : (e :: ts).countP (·.isSpelled Keyword.exports.text) ≤ 1) :
    ∀ t ∈ e :: ts, t.isSpelled Keyword.struct.text = false := by
  rw [List.countP_cons, if_pos he] at hcount
  have hzero : ts.countP (·.isSpelled Keyword.exports.text) = 0 := by omega
  have hstart : e.isSpelled Keyword.struct.text = false := isSpelled_eq_false_of_ne he (by decide)
  by_contra hex
  simp only [not_forall, Bool.not_eq_false] at hex
  obtain ⟨t, ht, hstruct⟩ := hex
  obtain ⟨e', he', hexports⟩ := exists_exports_of_structs h ⟨t, ht, hstruct⟩
  rw [List.dropWhile_cons_of_pos (by simp [hstart])] at he'
  exact List.countP_eq_zero.1 hzero e' ((List.dropWhile_sublist _).subset he') hexports

/-- The structs of a text stand behind each other, and the only `exports` stands behind them. -/
theorem structSyntax_of_structs {known table : Table Struct} {ts : List Token}
    (h : structs known ts = .ok table) (hcount : ts.countP (·.isSpelled Keyword.exports.text) ≤ 1)
    (hany : ∃ t ∈ ts, t.isSpelled Keyword.struct.text = true) :
    ∃ before ss uss keyword rest, ts = before ++ (uss.flatten ++ keyword :: rest) ∧
      (∀ t ∈ before, t.isSpelled Keyword.struct.text = false) ∧ ss ≠ [] ∧
      List.Forall₂ StructSyntax ss uss ∧ keyword.isSpelled Keyword.exports.text = true ∧
      (∀ t ∈ rest, t.isSpelled Keyword.struct.text = false) ∧ table = insertAll known ss ∧
      (known.keys ++ ss.map (·.name)).Nodup := by
  fun_induction structs known ts with
  | case1 known ts hdrop =>
    obtain ⟨t, ht, hstruct⟩ := hany
    have := List.dropWhile_eq_nil_iff.1 hdrop t ht
    simp [hstruct] at this
  | case2 => cases h
  | case3 => cases h
  | case4 => cases h
  | case6 => cases h
  | case5 known ts keyword rest hdrop s behind hread hnew next hfields hnext ih =>
    obtain ⟨hkeyword, before, rfl, hnone⟩ := split_at_struct hdrop
    obtain ⟨us, hus, rfl⟩ := structSyntax_of_struct hkeyword hread (by simpa using hfields)
    have hcount' : behind.countP (·.isSpelled Keyword.exports.text) ≤ 1 := by
      rw [List.countP_append, List.countP_cons, List.countP_append] at hcount
      omega
    have hkeys : (known.insert s.name s).keys = known.keys ++ [s.name] := by
      rw [Table.keys_insert, if_neg (Table.find?_eq_none_iff.1 hnew)]
    rcases (Bool.or_eq_true _ _).mp hnext with hnext | hnext
    · obtain ⟨t, behind, rfl, ht⟩ := Token.exists_cons_of_isSpelled hnext
      obtain ⟨before', ss, uss, e, rest, hbehind, hnone', hss, hgrammar, he, hrest, htable, hnodup⟩ :=
        ih h hcount' ⟨t, List.mem_cons_self, ht⟩
      -- The next struct follows at once, so nothing stands in front of it.
      have hnil : before' = [] := by
        cases before' with
        | nil => rfl
        | cons a before' =>
          obtain ⟨rfl, -⟩ := List.cons.inj hbehind
          simp [hnone' t List.mem_cons_self] at ht
      subst hnil
      rw [List.nil_append] at hbehind
      refine ⟨before, s :: ss, (keyword :: us) :: uss, e, rest, ?_, hnone, by simp, .cons hus hgrammar, he,
        hrest, htable, ?_⟩
      · rw [hbehind]
        simp
      · simpa [hkeys] using hnodup
    · obtain ⟨e, behind, rfl, he⟩ := Token.exists_cons_of_isSpelled hnext
      have hrest := no_struct_behind_exports h he hcount'
      rw [structs_of_no_struct hrest] at h
      refine ⟨before, [s], [keyword :: us], e, behind, by simp, hnone, by simp, .cons hus .nil, he,
        fun t ht => hrest t (List.mem_cons_of_mem e ht), (Except.ok.inj h).symm, ?_⟩
      have := (known.insert s.name s).nodup_keys'
      rwa [hkeys] at this

theorem structs_of_structSyntax {known : Table Struct} {before : List Token} {ss : List Struct}
    {uss : List (List Token)} {keyword : Token} {rest : List Token}
    (hbefore : ∀ t ∈ before, t.isSpelled Keyword.struct.text = false)
    (hss : List.Forall₂ StructSyntax ss uss) (he : keyword.isSpelled Keyword.exports.text = true)
    (hrest : ∀ t ∈ rest, t.isSpelled Keyword.struct.text = false)
    (hnodup : (known.keys ++ ss.map (·.name)).Nodup) :
    structs known (before ++ (uss.flatten ++ keyword :: rest)) = .ok (insertAll known ss) := by
  have hkeyword : keyword.isSpelled Keyword.struct.text = false := isSpelled_eq_false_of_ne he (by decide)
  induction hss generalizing known before with
  | nil =>
    apply structs_of_no_struct
    intro t ht
    simp only [List.flatten_nil, List.nil_append, List.mem_append, List.mem_cons] at ht
    rcases ht with ht | rfl | ht
    · exact hbefore t ht
    · exact hkeyword
    · exact hrest t ht
  | @cons s us ss uss hus hss ih =>
    obtain ⟨k, us, rfl, hk⟩ := keyword_of_structSyntax hus
    have hread := struct_of_structSyntax hus (uss.flatten ++ keyword :: rest)
    have hfields := fields_ne_nil_of_structSyntax hus
    have hnew : s.name ∉ known := by
      intro hmem
      exact (List.nodup_append.1 hnodup).2.2 s.name hmem s.name (by simp) rfl
    have hkeys : (known.insert s.name s).keys = known.keys ++ [s.name] := by
      rw [Table.keys_insert, if_neg hnew]
    have hskip : ∀ t ∈ before, (!t.isSpelled Keyword.struct.text) = true := by simpa using hbefore
    have hdrop : (before ++ (((k :: us) :: uss).flatten ++ keyword :: rest)).dropWhile
        (!·.isSpelled Keyword.struct.text) = k :: (us ++ (uss.flatten ++ keyword :: rest)) := by
      rw [List.dropWhile_append_of_pos hskip]
      simp [hk]
    have hlater := @ih (known.insert s.name s) [] (by simp) (by simpa [hkeys] using hnodup)
    have hnext : (first (uss.flatten ++ keyword :: rest)).isSpelled Keyword.struct.text = true ∨
        (first (uss.flatten ++ keyword :: rest)).isSpelled Keyword.exports.text = true := by
      cases hss with
      | nil => exact .inr he
      | cons hvs _ =>
        obtain ⟨k', vs, rfl, hk'⟩ := keyword_of_structSyntax hvs
        exact .inl hk'
    rw [structs]
    split
    · next heq => rw [hdrop] at heq; cases heq
    · next k' rest' heq =>
      obtain ⟨rfl, rfl⟩ := List.cons.inj (hdrop.symm.trans heq)
      split
      · next e hread' => simp [hread] at hread'
      · next s' behind hread' =>
        obtain ⟨rfl, rfl⟩ := Prod.mk.inj (Except.ok.inj (hread.symm.trans hread'))
        have hfind : known.find? s.name = none := Table.find?_eq_none_iff.2 hnew
        simp only [hfind]
        rw [if_neg (by simpa using hfields), if_pos (by simpa using hnext)]
        exact hlater

end BufferSchema.Schema.Parser
