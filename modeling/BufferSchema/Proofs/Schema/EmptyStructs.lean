import BufferSchema.Proofs.Schema.Causes
import BufferSchema.Proofs.Schema.Unplaced

/-!
# Which structs are reported as empty

The parser comes to a struct when all structs in front of it have been read. It then opens the struct with its name
and brace, and what stands behind the brace settles the rest. A closing brace makes the struct empty, and anything
else should be read or refused for what it is. But a body that does not start with a field is refused for its first
token only while there is a field keyword further on, in whatever struct. Behind the last field of a text, such a
struct is reported as empty, although something stands in it.
-/

namespace BufferSchema.Schema.Parser

open CompileError (RefusesStruct)
open Name (Faultless)
open Token (first)

variable {s s' : Struct} {ss : List Struct} {known : Table Struct} {keyword : Token}
  {ts us left rest behind : List Token} {name : String} {e : CompileError}

/-- The keyword, the name and the opening brace of the struct `s`, which has no fields yet. -/
inductive HeaderSyntax : Struct → List Token → Prop where
  | intro {keyword name opening : Token} (hkeyword : keyword.isSpelled Keyword.struct.text = true)
      (hname : Faultless name.lexeme) (hkind : name.kind = .name .struct)
      (hbuiltin : Builtin.ofName? name.lexeme = none) (hopen : opening.isSpelled "\x7b" = true) :
      HeaderSyntax { name := name.lexeme, position := keyword.position } [keyword, name, opening]

/-- The structs `ss` are read from the tokens `ts`, each followed by another one or by `exports`, and `left` is left.
What stands in front of a struct and belongs to none is passed over. -/
inductive Reads : List Struct → List Token → List Token → Prop where
  | nil {before left : List Token} (hbefore : ∀ t ∈ before, t.isSpelled Keyword.struct.text = false) :
      Reads [] (before ++ left) left
  | cons {s : Struct} {ss : List Struct} {before us behind left : List Token}
      (hbefore : ∀ t ∈ before, t.isSpelled Keyword.struct.text = false) (hstruct : StructSyntax s us)
      (hnext : (first behind).isSpelled Keyword.struct.text = true ∨
        (first behind).isSpelled Keyword.exports.text = true)
      (hlater : Reads ss behind left) : Reads (s :: ss) (before ++ (us ++ behind)) left

/-- Reading the tokens `ts` opens the struct `s`, behind the structs `ss` with names of their own. The tokens `rest`
stand behind the opening brace. -/
structure Opens (ss : List Struct) (ts : List Token) (s : Struct) (rest : List Token) : Prop where
  header : ∃ us, HeaderSyntax s us ∧ Reads ss ts (us ++ rest)
  nodup : (ss.map (·.name)).Nodup

/-- What is taken for the body of an empty struct: it is closed at once, or no field keyword follows any more. -/
def CountsAsEmpty (rest : List Token) : Prop :=
  (first rest).isSpelled "\x7d" = true ∨ ∀ t ∈ rest, t.isSpelled Keyword.field.text = false

/-! One struct. -/

theorem HeaderSyntax.fields_eq_nil (h : HeaderSyntax s us) : s.fields = [] := by
  cases h
  rfl

theorem HeaderSyntax.exists_cons (h : HeaderSyntax s us) :
    ∃ keyword us', us = keyword :: us' ∧ keyword.isSpelled Keyword.struct.text = true := by
  cases h with
  | intro hkeyword => exact ⟨_, _, rfl, hkeyword⟩

/-- Behind the header of a struct its body is read. -/
theorem struct_of_headerSyntax (h : HeaderSyntax s (keyword :: us)) (rest : List Token) :
    struct keyword.position (us ++ rest) = body s rest := by
  cases h with
  | intro _ hname hkind hbuiltin hopen =>
    have hcheck := Name.check_eq_ok_iff_faultless.2 hname
    simp [struct, hcheck, hkind, hbuiltin, hopen, bind, Except.bind]

theorem headerSyntax_of_struct (hkeyword : keyword.isSpelled Keyword.struct.text = true)
    (h : struct keyword.position ts = .ok (s', behind)) :
    ∃ s us rest, HeaderSyntax s (keyword :: us) ∧ ts = us ++ rest ∧ body s rest = .ok (s', behind) := by
  simp only [struct] at h
  obtain ⟨⟨⟩, hcheck, h⟩ := bind_eq_ok_iff.1 h
  have hname := Name.check_eq_ok_iff_faultless.1 hcheck
  split at h
  · next hkind =>
    split at h
    · cases h
    · next hbuiltin =>
      split at h
      · next hopen =>
        obtain ⟨opening, rest, htail, hopen⟩ := Token.exists_cons_of_isSpelled hopen
        obtain ⟨name, rfl⟩ : ∃ name, ts = name :: opening :: rest := by
          cases ts with
          | nil => cases htail
          | cons name us => exact ⟨name, by rw [← htail, List.tail_cons]⟩
        exact ⟨_, [name, opening], rest, .intro hkeyword hname hkind (by simpa using hbuiltin) hopen, rfl, h⟩
      · cases h
  · cases h

theorem body_of_countsAsEmpty (s : Struct) (h : CountsAsEmpty rest) : ∃ behind, body s rest = .ok (s, behind) := by
  by_cases hclose : (first rest).isSpelled "\x7d" = true
  · exact ⟨rest.tail, by simp [body, hclose]⟩
  · have hnone := h.resolve_left hclose
    have hfirst : (first rest).isSpelled Keyword.field.text = false := by
      cases rest with
      | nil => rfl
      | cons t rest => exact hnone t List.mem_cons_self
    have hany : rest.any (·.isSpelled Keyword.field.text) = false := by simpa using hnone
    exact ⟨rest, by simp [body, hclose, hfirst, hany]⟩

/-- A body gives fields or counts as empty. -/
theorem body_cases (hs : s.fields = []) (h : body s rest = .ok (s', behind)) :
    s'.fields ≠ [] ∨ s' = s ∧ CountsAsEmpty rest := by
  simp only [body] at h
  split at h
  · next hclose => exact .inr ⟨(Prod.mk.inj (Except.ok.inj h)).1.symm, .inl hclose⟩
  · split at h
    · next hfield =>
      obtain ⟨keyword, ts, rfl, hkeyword⟩ := Token.exists_cons_of_isSpelled hfield
      obtain ⟨fs, _, _, hne, -, -, -, rfl, -⟩ := fieldSyntax_of_fields h (by simp [hs]) keyword hkeyword
      exact .inl (by simpa [fields_foldl_push] using fun _ => hne)
    · split at h
      · cases h
      · next hnone =>
        refine .inr ⟨(Prod.mk.inj (Except.ok.inj h)).1.symm, .inr ?_⟩
        simpa using hnone

theorem not_countsAsEmpty (hclose : (first rest).isSpelled "\x7d" = false)
    (hfield : ∃ t ∈ rest, t.isSpelled Keyword.field.text = true) : ¬ CountsAsEmpty rest := by
  rintro (hempty | hnone)
  · simp [hclose] at hempty
  · obtain ⟨t, ht, hspelled⟩ := hfield
    simp [hnone t ht] at hspelled

/-! All structs up to one of them. -/

theorem dropWhile_no_struct {before : List Token}
    (hbefore : ∀ t ∈ before, t.isSpelled Keyword.struct.text = false) (ts : List Token) :
    (before ++ ts).dropWhile (!·.isSpelled Keyword.struct.text) =
      ts.dropWhile (!·.isSpelled Keyword.struct.text) :=
  List.dropWhile_append_of_pos (by simpa using hbefore)

/-- Where a struct is opened, its body decides what the round comes to. -/
theorem structs_of_headerSyntax (h : HeaderSyntax s us) (rest : List Token) : structs known (us ++ rest) =
    match body s rest with
    | .error e => .error e
    | .ok (s', behind) =>
      match known.find? s'.name with
      | some earlier => .error (.duplicateStruct s'.name earlier.position s'.position)
      | none =>
        if s'.fields.isEmpty then .error (.emptyStruct s'.name)
        else if (first behind).isSpelled Keyword.struct.text || (first behind).isSpelled Keyword.exports.text then
          structs (known.insert s'.name s') behind
        else .error (.tokenAfterStruct (first behind).lexeme (first behind).position) := by
  obtain ⟨keyword, us, rfl, hkeyword⟩ := h.exists_cons
  have hdrop : (keyword :: us ++ rest).dropWhile (!·.isSpelled Keyword.struct.text) = keyword :: (us ++ rest) :=
    List.dropWhile_cons_of_neg (by simp [hkeyword])
  have hround := structs_eq known (keyword :: us ++ rest)
  rw [hdrop] at hround
  rw [← struct_of_headerSyntax h rest]
  exact hround

/-- One round that reads a struct. -/
theorem structs_of_round {before : List Token}
    (hbefore : ∀ t ∈ before, t.isSpelled Keyword.struct.text = false) (hstruct : StructSyntax s us)
    (hnext : (first behind).isSpelled Keyword.struct.text = true ∨
      (first behind).isSpelled Keyword.exports.text = true) (hnew : s.name ∉ known) :
    structs known (before ++ (us ++ behind)) = structs (known.insert s.name s) behind := by
  obtain ⟨keyword, us, rfl, hkeyword⟩ := keyword_of_structSyntax hstruct
  have hfields : s.fields.isEmpty = false := by simpa using fields_ne_nil_of_structSyntax hstruct
  have hdrop : (keyword :: us ++ behind).dropWhile (!·.isSpelled Keyword.struct.text) = keyword :: (us ++ behind) :=
    List.dropWhile_cons_of_neg (by simp [hkeyword])
  rw [structs_eq, dropWhile_no_struct hbefore, hdrop]
  simp only [struct_of_structSyntax hstruct behind, Table.find?_eq_none_iff.2 hnew, hfields]
  rw [if_neg (by decide), if_pos (by simpa using hnext)]

/-- The structs that are read go into the table, and the parser goes on with what is left. -/
theorem structs_of_reads (h : Reads ss ts left) (hnodup : (known.keys ++ ss.map (·.name)).Nodup) :
    structs known ts = structs (insertAll known ss) left := by
  induction h generalizing known with
  | @nil before left hbefore =>
    rw [structs_eq, dropWhile_no_struct hbefore, ← structs_eq]
    rfl
  | @cons s ss before us behind left hbefore hstruct hnext _ ih =>
    have hnew : s.name ∉ known := fun hmem =>
      (List.nodup_append.1 hnodup).2.2 s.name hmem s.name (by simp) rfl
    have hkeys : (known.insert s.name s).keys = known.keys ++ [s.name] := by
      rw [Table.keys_insert, if_neg hnew]
    rw [structs_of_round hbefore hstruct hnext hnew, ih (by simpa [hkeys] using hnodup)]
    rfl

theorem mem_insertAll_iff (hnodup : (known.keys ++ ss.map (·.name)).Nodup) :
    name ∈ insertAll known ss ↔ name ∈ known.keys ++ ss.map (·.name) := by
  have hkeys : (insertAll known ss).keys = known.keys ++ ss.map (·.name) := by
    simp [Table.keys, entries_insertAll hnodup, Function.comp_def]
  rw [Table.mem_iff, hkeys]

/-- A struct is reported as empty exactly if the parser comes to it, its name is new, and what stands behind its
brace counts as empty. -/
theorem structs_eq_emptyStruct_iff : structs known ts = .error (.emptyStruct name) ↔
    ∃ ss s us rest, HeaderSyntax s us ∧ Reads ss ts (us ++ rest) ∧
      (known.keys ++ ss.map (·.name) ++ [s.name]).Nodup ∧ s.name = name ∧ CountsAsEmpty rest := by
  constructor
  · intro h
    fun_induction structs known ts with
    | case1 => cases h
    | case2 known ts keyword rest hdrop e hs =>
      obtain rfl := Except.error.inj h
      exact ((refusesStruct_struct _ (says_true _)).of_error hs).elim
    | case3 => cases h
    | case6 => cases h
    | case4 known ts keyword rest hdrop s behind hs hnew hempty =>
      obtain rfl := CompileError.emptyStruct.inj (Except.error.inj h)
      obtain ⟨hkeyword, before, rfl, hbefore⟩ := split_at_struct hdrop
      obtain ⟨s₀, us, rest, hheader, rfl, hbody⟩ := headerSyntax_of_struct hkeyword hs
      have hfields : ¬ s.fields ≠ [] := by simpa using hempty
      obtain ⟨rfl, hcounts⟩ := (body_cases hheader.fields_eq_nil hbody).resolve_left hfields
      refine ⟨[], s, keyword :: us, rest, hheader, .nil hbefore, ?_, rfl, hcounts⟩
      rw [List.map_nil, List.append_nil, List.nodup_append]
      refine ⟨known.nodup_keys', by simp, fun a ha b hb => ?_⟩
      rintro rfl
      exact Table.find?_eq_none_iff.1 hnew (List.mem_singleton.1 hb ▸ ha)
    | case5 known ts keyword rest hdrop s behind hs hnew next hfields hnext ih =>
      obtain ⟨hkeyword, before, rfl, hbefore⟩ := split_at_struct hdrop
      obtain ⟨us, hus, rfl⟩ := structSyntax_of_struct hkeyword hs (by simpa using hfields)
      have hkeys : (known.insert s.name s).keys = known.keys ++ [s.name] := by
        rw [Table.keys_insert, if_neg (Table.find?_eq_none_iff.1 hnew)]
      obtain ⟨ss, t, vs, rest, hheader, hreads, hnodup, hname, hcounts⟩ := ih h
      refine ⟨s :: ss, t, vs, rest, hheader, .cons hbefore hus ?_ hreads, ?_, hname, hcounts⟩
      · simpa using hnext
      · simpa [hkeys] using hnodup
  · rintro ⟨ss, s, us, rest, hheader, hreads, hnodup, rfl, hcounts⟩
    obtain ⟨hbehind, -, hnew⟩ := List.nodup_append.1 hnodup
    obtain ⟨behind, hbody⟩ := body_of_countsAsEmpty s hcounts
    have hfind : (insertAll known ss).find? s.name = none := by
      rw [Table.find?_eq_none_iff, mem_insertAll_iff hbehind]
      exact fun hmem => hnew s.name hmem s.name List.mem_cons_self rfl
    rw [structs_of_reads hreads hbehind, structs_of_headerSyntax hheader]
    simp [hbody, hfind, hheader.fields_eq_nil]

/-- A struct whose body is refused ends the reading. -/
theorem structs_of_body (h : Opens ss ts s rest) (he : body s rest = .error e) :
    structs ∅ ts = .error e := by
  obtain ⟨us, hheader, hreads⟩ := h.header
  rw [structs_of_reads hreads (by simpa using h.nodup), structs_of_headerSyntax hheader, he]

/-- A struct that has something else than a closing brace behind its brace, and a field keyword somewhere behind, is
not reported as empty. -/
theorem structs_ne_emptyStruct (h : Opens ss ts s rest) (hcounts : ¬ CountsAsEmpty rest) :
    structs ∅ ts ≠ .error (.emptyStruct s.name) := by
  obtain ⟨us, hheader, hreads⟩ := h.header
  have hbody := refusesStruct_body (s := s) trivial (says_true rest)
  rw [structs_of_reads hreads (by simpa using h.nodup), structs_of_headerSyntax hheader]
  intro hempty
  split at hempty
  · next e he =>
    obtain rfl := Except.error.inj hempty
    exact hbody.of_error he
  · next s' behind hs' =>
    have hname : s'.name = s.name := (hbody.of_ok hs').1
    have hfields := (body_cases hheader.fields_eq_nil hs').resolve_right fun hsame => hcounts hsame.2
    split at hempty
    · cases hempty
    · rw [if_neg (by simpa using hfields)] at hempty
      split at hempty
      · obtain ⟨ss', t, _, _, -, -, hnodup, ht, -⟩ := structs_eq_emptyStruct_iff.1 hempty
        -- The name is that of a struct in the table by now.
        have hmem : s.name ∈ ((insertAll ∅ ss).insert s'.name s').keys ++ ss'.map (·.name) :=
          List.mem_append_left _ (Table.mem_insert.2 (.inl hname.symm))
        exact (List.nodup_append.1 hnodup).2.2 s.name hmem t.name List.mem_cons_self ht.symm
      · cases hempty

end BufferSchema.Schema.Parser

namespace BufferSchema.Schema

open Token (first)

theorem parse_eq_emptyStruct_iff {tokens : TokenStream} {name : String} :
    (parse tokens).result = .error (.emptyStruct name) ↔
      tokens.Ready ∧ Parser.structs ∅ tokens.tokens = .error (.emptyStruct name) := by
  constructor
  · intro h
    rcases parse_error_cases (says_true tokens.tokens) h with hframe | hstructs | ⟨read, -, hverdict⟩
    · exact hframe.elim
    · exact hstructs
    · exact ((outcome_verdict _).of_error hverdict).elim
  · rintro ⟨hready, hstructs⟩
    exact parse_of_structs hready hstructs

/-- A text is refused for an empty struct exactly if the parser comes to a struct with a new name that has a closing
brace behind its opening one, or no field keyword any more in all that is left of the text. With a field keyword
somewhere behind it, in its own body or in that of a later struct, a struct that is not closed at once is not reported
as empty: it is refused for its first token if this is no field, and otherwise for what is wrong with its fields. -/
theorem empty_report (tokens : TokenStream) :
    (∀ name, (parse tokens).result = .error (.emptyStruct name) ↔ tokens.Ready ∧
      ∃ ss s rest, Parser.Opens ss tokens.tokens s rest ∧ s.name = name ∧ name ∉ ss.map (·.name) ∧
        ((first rest).isSpelled "\x7d" = true ∨ ∀ t ∈ rest, t.isSpelled Keyword.field.text = false)) ∧
    ∀ ss s rest, tokens.Ready → Parser.Opens ss tokens.tokens s rest → (first rest).isSpelled "\x7d" = false →
      (∃ t ∈ rest, t.isSpelled Keyword.field.text = true) →
      (parse tokens).result ≠ .error (.emptyStruct s.name) ∧
      ((first rest).isSpelled Keyword.field.text = false →
        (parse tokens).result = .error (.tokenBeforeField (first rest).lexeme (first rest).position)) ∧
      ((first rest).isSpelled Keyword.field.text = true →
        ∀ e, Parser.fields s (first rest).position rest.tail = .error e → (parse tokens).result = .error e) := by
  refine ⟨fun name => ?_, fun ss s rest hready hopens hclose hfield => ⟨?_, fun hfirst => ?_, fun hfirst e he => ?_⟩⟩
  · rw [parse_eq_emptyStruct_iff, Parser.structs_eq_emptyStruct_iff]
    refine and_congr_right fun _ => ?_
    constructor
    · rintro ⟨ss, s, us, rest, hheader, hreads, hnodup, rfl, hcounts⟩
      obtain ⟨hbehind, -, hnew⟩ := List.nodup_append.1 hnodup
      refine ⟨ss, s, rest, ⟨⟨us, hheader, hreads⟩, by simpa using hbehind⟩, rfl, fun hmem => ?_, hcounts⟩
      exact hnew s.name (by simpa using hmem) s.name List.mem_cons_self rfl
    · rintro ⟨ss, s, rest, ⟨⟨us, hheader, hreads⟩, hbehind⟩, rfl, hnew, hcounts⟩
      refine ⟨ss, s, us, rest, hheader, hreads, ?_, rfl, hcounts⟩
      rw [Table.keys_empty, List.nil_append, List.nodup_append]
      refine ⟨hbehind, by simp, fun a ha b hb => ?_⟩
      rintro rfl
      exact hnew (List.mem_singleton.1 hb ▸ ha)
  · intro hempty
    exact Parser.structs_ne_emptyStruct hopens (Parser.not_countsAsEmpty hclose hfield)
      (parse_eq_emptyStruct_iff.1 hempty).2
  · refine parse_of_structs hready (Parser.structs_of_body hopens ?_)
    simp [Parser.body, hclose, hfirst, hfield]
  · refine parse_of_structs hready (Parser.structs_of_body hopens ?_)
    simp only [Parser.body, hclose, hfirst, he]
    rfl

/-- The tokens of a text whose first struct has a type in it and no field, and whose second struct has a field. -/
def strayBodyTokens : TokenStream :=
  ⟨[⟨0, .keyword .struct, "struct", ⟨1, 1⟩⟩, ⟨1, .name .struct, "A", ⟨1, 8⟩⟩, ⟨2, .operator, "\x7b", ⟨1, 10⟩⟩,
    ⟨3, .typeName, "u8", ⟨1, 12⟩⟩, ⟨4, .operator, "\x7d", ⟨1, 15⟩⟩, ⟨5, .keyword .struct, "struct", ⟨1, 17⟩⟩,
    ⟨6, .name .struct, "B", ⟨1, 24⟩⟩, ⟨7, .operator, "\x7b", ⟨1, 26⟩⟩, ⟨8, .keyword .field, "field", ⟨1, 28⟩⟩,
    ⟨9, .name .field, "x", ⟨1, 34⟩⟩, ⟨10, .typeName, "u8", ⟨1, 36⟩⟩, ⟨11, .operator, "\x7d", ⟨1, 39⟩⟩,
    ⟨12, .keyword .exports, "exports", ⟨1, 41⟩⟩, ⟨13, .name .exports, "A", ⟨1, 49⟩⟩]⟩

theorem empty_report_of_stray_body :
    (TokenStream.scan "struct A \x7b u8 \x7d struct B \x7b field x u8 \x7d exports A").result = .ok strayBodyTokens ∧
    (parse strayBodyTokens).result = .error (.tokenBeforeField "u8" ⟨1, 12⟩) := by
  have hA : Name.Faultless "A" := Name.fault?_eq_none_iff.1 (by decide)
  have hready : strayBodyTokens.Ready := ⟨⟨strayBodyTokens.get 13, by decide +kernel⟩, by decide, by decide⟩
  have hheader := @Parser.HeaderSyntax.intro (strayBodyTokens.get 0) (strayBodyTokens.get 1) (strayBodyTokens.get 2)
    rfl hA rfl rfl rfl
  have hopens : Parser.Opens [] strayBodyTokens.tokens _ (strayBodyTokens.tokens.drop 3) :=
    ⟨⟨_, hheader, @Parser.Reads.nil [] strayBodyTokens.tokens (by simp)⟩, .nil⟩
  exact ⟨by decide +kernel, ((empty_report strayBodyTokens).2 _ _ _ hready hopens rfl (by decide)).2.1 rfl⟩

/-- The same structs the other way round: a struct is reported as empty though a type stands in it. -/
theorem stray_body_reported_empty :
    ¬ ∀ (source : String) (tokens : TokenStream) (name : String), (TokenStream.scan source).result = .ok tokens →
      (parse tokens).result = .error (.emptyStruct name) →
      ["struct", name, "\x7b", "\x7d"] <:+: tokens.tokens.map (·.lexeme) := by
  intro h
  have hscan : (TokenStream.scan "struct A \x7b field x u8 \x7d struct B \x7b u8 \x7d exports A").result =
      .ok ⟨[⟨0, .keyword .struct, "struct", ⟨1, 1⟩⟩, ⟨1, .name .struct, "A", ⟨1, 8⟩⟩,
        ⟨2, .operator, "\x7b", ⟨1, 10⟩⟩, ⟨3, .keyword .field, "field", ⟨1, 12⟩⟩, ⟨4, .name .field, "x", ⟨1, 18⟩⟩,
        ⟨5, .typeName, "u8", ⟨1, 20⟩⟩, ⟨6, .operator, "\x7d", ⟨1, 23⟩⟩, ⟨7, .keyword .struct, "struct", ⟨1, 25⟩⟩,
        ⟨8, .name .struct, "B", ⟨1, 32⟩⟩, ⟨9, .operator, "\x7b", ⟨1, 34⟩⟩, ⟨10, .typeName, "u8", ⟨1, 36⟩⟩,
        ⟨11, .operator, "\x7d", ⟨1, 39⟩⟩, ⟨12, .keyword .exports, "exports", ⟨1, 41⟩⟩,
        ⟨13, .name .exports, "A", ⟨1, 49⟩⟩]⟩ := by decide +kernel
  exact absurd (h _ _ "B" hscan (by decide +kernel)) (by decide)

end BufferSchema.Schema
