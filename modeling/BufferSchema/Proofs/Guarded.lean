import BufferSchema.Guarded
import BufferSchema.Proofs.Luau.Failures
import BufferSchema.Proofs.Luau.WellScoped
import BufferSchema.Proofs.Schema.Causes
import BufferSchema.Proofs.Token.Known

/-!
# Guards that never act

A text that passes the first look at its export has one `exports` keyword and a name right behind it. The second look
finds the same keyword and the same name, so its guards against a missing keyword and a missing name never act. Nor
does the guard of the generator against an export without a struct, since an accepted schema has the struct that it
exports. What the first look refuses can be said of the words of the text alone.
-/

namespace BufferSchema

open Schema.Parser (exportedName exportedName_eq_ok_iff exportedName_eq_error bind_eq_ok_iff)
open Token (first)

/-- Exactly one of the words is `exports`, and the next one is a name and no keyword. -/
def ExportsOneName (ws : List String) : Prop :=
  ∃ front name behind, ws = front ++ "exports" :: name :: behind ∧ "exports" ∉ front ∧ "exports" ∉ name :: behind ∧
    Text.IsIdentifier name.toList ∧ ∀ k : Keyword, name ≠ k.text

namespace TokenStream

variable {s : TokenStream} {front rest : List Token} {keyword : Token}

/-- Every token has the number of its place. -/
def Numbered (s : TokenStream) : Prop := ∀ i (t : Token), s.tokens[i]? = some t → t.index = i

theorem numbered_of_scan {source : String} (h : (scan source).result = .ok s) : s.Numbered := by
  have hdesc := describes_of_scan h
  intro i t ht
  have hi : i < (Lexeme.words .start source.toList).length := by
    rw [← hdesc.length_eq]
    exact (List.getElem?_eq_some_iff.1 ht).1
  obtain ⟨kind, -, htoken⟩ := hdesc.token i _ (List.getElem?_eq_getElem hi)
  rw [tokens_indexed, ht] at htoken
  rw [Option.some.inj htoken]

theorem occurrences_eq_nil_iff (k : Keyword) :
    s.occurrences k = [] ↔ ∀ t ∈ s.tokens, t.isSpelled k.text = false := by
  simp [occurrences]

theorem length_occurrences (k : Keyword) : (s.occurrences k).length = s.tokens.countP (·.isSpelled k.text) := by
  rw [occurrences, List.length_map, List.countP_eq_length_filter]

/-- The first of the numbers is that of the first `exports`. -/
theorem occurrences_of_split (hnum : s.Numbered) (h : s.tokens = front ++ keyword :: rest)
    (hkeyword : keyword.isSpelled Keyword.exports.text = true)
    (hfront : ∀ t ∈ front, t.isSpelled Keyword.exports.text = false) :
    s.occurrences .exports = front.length :: occurrences ⟨rest⟩ .exports := by
  have hindex : keyword.index = front.length := hnum _ _ (by simp [h])
  have hnone : front.filter (·.isSpelled Keyword.exports.text) = [] := by simpa using hfront
  simp [occurrences, h, List.filter_append, hnone, hkeyword, hindex]

theorem get_of_split (h : s.tokens = front ++ keyword :: rest) :
    s.get front.length = keyword ∧ (s.get (front.length + 1)).kind = (first rest).kind ∧
      (s.get (front.length + 1)).lexeme = (first rest).lexeme := by
  refine ⟨by simp [get, h], ?_⟩
  cases rest <;> simp [get, h, Token.endOfInput]

/-- There is no `exports`, or a first one. -/
theorem exports_cases (s : TokenStream) : (∀ t ∈ s.tokens, t.isSpelled Keyword.exports.text = false) ∨
    ∃ front keyword rest, s.tokens = front ++ keyword :: rest ∧ keyword.isSpelled Keyword.exports.text = true ∧
      ∀ t ∈ front, t.isSpelled Keyword.exports.text = false := by
  cases hdrop : s.tokens.dropWhile (!·.isSpelled Keyword.exports.text) with
  | nil => exact .inl (by simpa [List.dropWhile_eq_nil_iff] using hdrop)
  | cons keyword rest =>
    refine .inr ⟨s.tokens.takeWhile (!·.isSpelled Keyword.exports.text), keyword, rest, ?_, ?_, fun t ht => ?_⟩
    · rw [← hdrop, List.takeWhile_append_dropWhile]
    · simpa [hdrop] using List.head?_dropWhile_not (!·.isSpelled Keyword.exports.text) s.tokens
    · simpa using List.mem_takeWhile_imp ht

end TokenStream

/-! The first look and the second. -/

theorem exportedName_of_none {ts : List Token} (h : ∀ t ∈ ts, t.isSpelled Keyword.exports.text = false) :
    exportedName ts = .error (.exportCount 0) := by
  have hcount : ts.countP (·.isSpelled Keyword.exports.text) = 0 := List.countP_eq_zero.2 (by simpa using h)
  rw [exportedName, hcount, if_neg (by simp)]

theorem exportedName_of_split {front rest : List Token} {keyword : Token}
    (hkeyword : keyword.isSpelled Keyword.exports.text = true)
    (hfront : ∀ t ∈ front, t.isSpelled Keyword.exports.text = false) :
    exportedName (front ++ keyword :: rest) =
      if rest.countP (·.isSpelled Keyword.exports.text) = 0 ∧ (first rest).kind = .name .exports then .ok (first rest)
      else .error (.exportCount (rest.countP (·.isSpelled Keyword.exports.text) + 1)) := by
  have hcount : front.countP (·.isSpelled Keyword.exports.text) = 0 := List.countP_eq_zero.2 (by simpa using hfront)
  have hdrop : (front ++ keyword :: rest).dropWhile (!·.isSpelled Keyword.exports.text) = keyword :: rest := by
    rw [List.dropWhile_append_of_pos (by simpa using hfront), List.dropWhile_cons_of_neg (by simp [hkeyword])]
  simp [exportedName, List.countP_append, hcount, hkeyword, hdrop]

namespace Guarded

variable {s : TokenStream}

/-- The first look finds what the only look of a reader finds that keeps the name. -/
theorem checkExports_eq (hnum : s.Numbered) : checkExports s = (exportedName s.tokens).map fun _ => () := by
  rcases s.exports_cases with hnone | ⟨front, keyword, rest, hsplit, hkeyword, hfront⟩
  · rw [checkExports, (TokenStream.occurrences_eq_nil_iff .exports).2 hnone, exportedName_of_none hnone]
    rfl
  · have hbehind := TokenStream.length_occurrences (s := ⟨rest⟩) .exports
    rw [checkExports, TokenStream.occurrences_of_split hnum hsplit hkeyword hfront, hsplit,
      exportedName_of_split hkeyword hfront, ← hbehind]
    cases hoccurrences : TokenStream.occurrences ⟨rest⟩ .exports with
    | nil =>
      simp only [(TokenStream.get_of_split hsplit).2.1, List.length_nil, true_and]
      split <;> rfl
    | cons => simp [Except.map]

/-- The second look finds the name again that the first one has found. -/
theorem readExports_eq (hnum : s.Numbered) {name : Token} (h : exportedName s.tokens = .ok name)
    (known : Table Struct) : readExports s known = (do
      Name.check name.lexeme
      if name.lexeme ∈ known then .ok name.lexeme else .error (.exportNotFound name.lexeme)) := by
  rcases s.exports_cases with hnone | ⟨front, keyword, rest, hsplit, hkeyword, hfront⟩
  · rw [exportedName_of_none hnone] at h
    cases h
  · obtain ⟨-, hkind, hlexeme⟩ := TokenStream.get_of_split hsplit
    rw [hsplit, exportedName_of_split hkeyword hfront] at h
    split at h
    · next hname =>
      obtain rfl := Except.ok.inj h
      rw [readExports, TokenStream.occurrences_of_split hnum hsplit hkeyword hfront]
      simp only [hkind, hlexeme, if_pos hname.2]
    · cases h

theorem ofTokens_eq (hnum : s.Numbered) : ofTokens s = Schema.ofTokens s := by
  have hnone (k : Keyword) : (s.occurrences k).isEmpty = !s.tokens.any (·.isSpelled k.text) := by
    rw [Bool.eq_iff_iff, List.isEmpty_iff, TokenStream.occurrences_eq_nil_iff]
    simp
  simp only [ofTokens, checkReady, Schema.ofTokens, hnone, checkExports_eq hnum]
  split
  · rfl
  · cases hname : exportedName s.tokens with
    | error e => rfl
    | ok name =>
      simp only [readExports_eq hnum hname, Except.map, bind, Except.bind]
      by_cases hstruct : (!s.tokens.any (·.isSpelled Keyword.struct.text)) = true
      · rw [if_pos hstruct, if_pos hstruct]
      · rw [if_neg hstruct, if_neg hstruct]
        by_cases hfield : (!s.tokens.any (·.isSpelled Keyword.field.text)) = true
        · rw [if_pos hfield, if_pos hfield]
        · rw [if_neg hfield, if_neg hfield]
          cases Schema.Parser.structs ∅ s.tokens with
          | error e => rfl
          | ok known =>
            cases Name.check name.lexeme with
            | error e => rfl
            | ok _ => by_cases hknown : name.lexeme ∈ known <;> simp [hknown]

theorem parse_eq (hnum : s.Numbered) : parse s = (Schema.parse s).result := by
  simp only [parse, ofTokens_eq hnum, Schema.parse, Logged.result_bind, Logged.result_ofExcept, Logged.result_tell,
    Logged.result_pure]
  rfl

/-- All guards together change nothing. -/
theorem compile_eq (c : Luau.Config) (date : Timestamp) (source : String) :
    compile c date source = (Luau.compile c date source).map fun file => [file] := by
  simp only [compile, Luau.compile, Schema.ofText]
  cases hscan : (TokenStream.scan source).result with
  | error e => rfl
  | ok tokens =>
    simp only [bind, Except.bind, parse_eq (TokenStream.numbered_of_scan hscan)]
    cases (Schema.parse tokens).result with
    | error e => rfl
    | ok s =>
      simp only [generate, Luau.result_generate, Luau.render]
      cases s.exported? with
      | none => rfl
      | some exported => rfl

theorem exists_exportedName_of_checkReady (hnum : s.Numbered) (h : checkReady s = .ok ()) :
    ∃ name, exportedName s.tokens = .ok name := by
  rw [checkReady, checkExports_eq hnum] at h
  split at h
  · cases h
  · cases hname : exportedName s.tokens with
    | error e => simp [hname, Except.map, bind, Except.bind] at h
    | ok name => exact ⟨name, rfl⟩

/-- Behind the first look, the second one fails for the name alone. -/
theorem readExports_error (hnum : s.Numbered) (hready : checkReady s = .ok ()) {known : Table Struct}
    {e : CompileError} (h : readExports s known = .error e) :
    (∃ name reason, e = .invalidName name reason) ∨ ∃ name, e = .exportNotFound name := by
  obtain ⟨name, hname⟩ := exists_exportedName_of_checkReady hnum hready
  have hlook : Outcome (fun e => (∃ name reason, e = .invalidName name reason) ∨ ∃ name, e = .exportNotFound name)
      (fun _ => True) (readExports s known) := by
    rw [readExports_eq hnum hname]
    refine (Schema.Parser.outcome_check fun fault _ => .inl ⟨_, _, rfl⟩).bind fun _ _ => ?_
    split
    · exact trivial
    · exact .inr ⟨_, rfl⟩
  exact hlook.of_error h

end Guarded

/-! What the first look asks, said of the words of a text. -/

section Words

variable {source : String} {tokens : TokenStream}

theorem Token.Classified.identifier_of_name {before? : Option Token.Kind} {t : Token} {ts : List Token} {k : Keyword}
    (h : Classified before? (t :: ts)) (hkind : t.kind = .name k) :
    Text.IsIdentifier t.lexeme.toList ∧ ∀ k' : Keyword, t.lexeme ≠ k'.text := by
  cases h with
  | @cons _ l _ _ hword htext hl _ =>
    rw [hkind] at hl
    rw [htext] at hword
    unfold Token.Kind.ofLexeme? at hl
    split at hl
    · cases hl
    · cases hl
    · split at hl <;> cases hl
    · next hidentifier =>
      rw [hidentifier] at hword
      cases hkey : Keyword.ofText? l.text with
      | some k' => simp [hkey] at hl
      | none =>
        cases hword with
        | identifier hid =>
          refine ⟨hid, fun k' hk' => ?_⟩
          rw [Keyword.ofText?_eq_some_iff.2 (htext.trans hk')] at hkey
          cases hkey

theorem isSpelled_iff_of_scan (hscan : (TokenStream.scan source).result = .ok tokens) {t : Token}
    (ht : t ∈ tokens.tokens) (w : String) : t.isSpelled w = true ↔ t.lexeme = w :=
  ⟨fun h => (Token.isSpelled_iff.1 h).2, (TokenStream.classified_of_scan hscan).isSpelled_of_lexeme ht⟩

theorem countP_exports (hscan : (TokenStream.scan source).result = .ok tokens) :
    tokens.tokens.countP (·.isSpelled Keyword.exports.text) = (Lexeme.texts source).count "exports" := by
  rw [← TokenStream.texts_of_scan hscan, List.count, List.countP_map]
  refine List.countP_congr fun t ht => ?_
  rw [isSpelled_iff_of_scan hscan ht]
  simp [Keyword.text]

theorem exports_notMem_iff (hscan : (TokenStream.scan source).result = .ok tokens) {us : List Token}
    (hus : us ⊆ tokens.tokens) :
    "exports" ∉ us.map (·.lexeme) ↔ ∀ t ∈ us, t.isSpelled Keyword.exports.text = false := by
  have hspelled : ∀ t ∈ us, t.isSpelled Keyword.exports.text = false ↔ t.lexeme ≠ "exports" := by
    intro t ht
    rw [← Bool.not_eq_true, isSpelled_iff_of_scan hscan (hus ht)]
    rfl
  simp only [List.mem_map, not_exists, not_and]
  exact forall₂_congr fun t ht => (hspelled t ht).symm

theorem exportsOneName_of_exportedName (hscan : (TokenStream.scan source).result = .ok tokens) {name : Token}
    (hname : exportedName tokens.tokens = .ok name) : ExportsOneName (Lexeme.texts source) := by
  rcases TokenStream.exports_cases tokens with hnone | ⟨front, keyword, rest, hsplit, hkeyword, hfront⟩
  · cases (exportedName_of_none hnone).symm.trans hname
  rw [hsplit, exportedName_of_split hkeyword hfront] at hname
  split at hname
  case isFalse => cases hname
  case isTrue hbehind =>
    obtain ⟨hcount, hkind⟩ := hbehind
    cases rest with
    | nil => cases hkind
    | cons nm behind =>
      have hclassified := TokenStream.classified_of_scan hscan
      rw [hsplit] at hclassified
      obtain ⟨_, hclassified⟩ := hclassified.of_append
      obtain ⟨hid, hkey⟩ := hclassified.tail.identifier_of_name hkind
      have htext : keyword.lexeme = "exports" := (Token.isSpelled_iff.1 hkeyword).2
      refine ⟨front.map (·.lexeme), nm.lexeme, behind.map (·.lexeme), ?_, ?_, ?_, hid, hkey⟩
      · simp [← TokenStream.texts_of_scan hscan, hsplit, htext]
      · exact (exports_notMem_iff hscan (by simp [hsplit])).2 hfront
      · exact (@exports_notMem_iff _ _ hscan (nm :: behind) (by simp [hsplit])).2 (by simpa using hcount)

theorem exists_exportedName (hscan : (TokenStream.scan source).result = .ok tokens)
    (h : ExportsOneName (Lexeme.texts source)) : ∃ name, exportedName tokens.tokens = .ok name := by
  obtain ⟨front, name, behind, htexts, hfront, hbehind, hid, hkey⟩ := h
  rw [← TokenStream.texts_of_scan hscan] at htexts
  obtain ⟨front, tail, hsplit, rfl, htail⟩ := List.map_eq_append_iff.1 htexts
  obtain ⟨keyword, tail, rfl, htext, htail⟩ := List.map_eq_cons_iff.1 htail
  obtain ⟨nm, behind, rfl, rfl, rfl⟩ := List.map_eq_cons_iff.1 htail
  have hkeyword : keyword.isSpelled Keyword.exports.text = true :=
    (isSpelled_iff_of_scan hscan (by simp [hsplit]) _).2 htext
  have hclassified := TokenStream.classified_of_scan hscan
  rw [hsplit] at hclassified
  obtain ⟨_, hclassified⟩ := hclassified.of_append
  have hname := hclassified.tail
  rw [hclassified.kind_of_keyword (k := .exports) htext] at hname
  have hkind : nm.kind = .name .exports := by
    refine hname.kind_of_name hid (Option.eq_none_iff_forall_ne_some.2 fun k hk => hkey k ?_)
    exact Keyword.ofText?_eq_some_iff.1 hk
  have hnone := (exports_notMem_iff hscan (by simp [hsplit])).1 hfront
  have hcount : (nm :: behind).countP (·.isSpelled Keyword.exports.text) = 0 := by
    have hnone := (@exports_notMem_iff _ _ hscan (nm :: behind) (by simp [hsplit])).1 hbehind
    simpa [List.countP_eq_zero] using hnone
  refine ⟨nm, ?_⟩
  rw [hsplit, exportedName_of_split hkeyword hnone, if_pos ⟨hcount, hkind⟩]
  rfl

/-- What the first look asks for can be seen in the words of the text. -/
theorem exists_exportedName_iff (hscan : (TokenStream.scan source).result = .ok tokens) :
    (∃ name, exportedName tokens.tokens = .ok name) ↔ ExportsOneName (Lexeme.texts source) :=
  ⟨fun ⟨_, hname⟩ => exportsOneName_of_exportedName hscan hname, exists_exportedName hscan⟩

end Words

/-! What a compilation comes to. -/

section Runs

variable {c : Luau.Config} {date : Timestamp} {source : String} {tokens : TokenStream} {e : CompileError} {n : Nat}

theorem parse_ne_exportNameExpected (h : (Schema.parse tokens).result = .error e) (p : Text.Position) :
    e ≠ .exportNameExpected p := by
  rintro rfl
  rcases Schema.refuses_of_parse (says_true _) h with hrefused | hrefused | hrefused <;> exact hrefused

theorem parse_eq_exportCount_iff : (Schema.parse tokens).result = .error (.exportCount n) ↔
    tokens.tokens ≠ [] ∧ exportedName tokens.tokens = .error (.exportCount n) := by
  constructor
  · intro h
    rcases Schema.refuses_of_parse (says_true _) h with hrefused | hrefused | hrefused
    · exact hrefused
    all_goals exact hrefused.elim
  · rintro ⟨hne, hcount⟩
    have hread : Schema.ofTokens tokens = .error (.exportCount n) := by
      simp [Schema.ofTokens, hne, hcount, bind, Except.bind]
    simp only [Schema.parse, Logged.result_bind, Logged.result_ofExcept, hread]
    rfl

theorem exportedName_eq_exportCount_iff (hscan : (TokenStream.scan source).result = .ok tokens) :
    exportedName tokens.tokens = .error (.exportCount n) ↔
      ¬ ExportsOneName (Lexeme.texts source) ∧ n = (Lexeme.texts source).count "exports" := by
  rw [← exists_exportedName_iff hscan, ← countP_exports hscan]
  constructor
  · intro h
    refine ⟨?_, CompileError.exportCount.inj (exportedName_eq_error h)⟩
    rintro ⟨name, hname⟩
    cases h.symm.trans hname
  · rintro ⟨hnone, rfl⟩
    cases hname : exportedName tokens.tokens with
    | error e => rw [exportedName_eq_error hname]
    | ok name => exact absurd ⟨name, hname⟩ hnone

/-- A scan has two errors of its own. -/
theorem scan_error_cases (h : (TokenStream.scan source).result = .error e) :
    (∃ w p, e = .unknownOperator w p) ∨ ∃ w, e = .leadingToken w := by
  obtain ⟨i, l, -, hfault, -⟩ := (TokenStream.scan_eq_error_iff source e).1 h
  cases hfault with
  | unknown => exact .inl ⟨_, _, rfl⟩
  | leading => exact .inr ⟨_, rfl⟩

namespace Guarded

theorem compile_error_iff : compile c date source = .error e ↔ Luau.compile c date source = .error e := by
  rw [compile_eq]
  cases Luau.compile c date source <;> simp [Except.map]

theorem exists_content_of_parse {s : Schema} (hscan : (TokenStream.scan source).result = .ok tokens)
    (hparse : (Schema.parse tokens).result = .ok s) : ∃ content, (Luau.render c date s).result = .ok content ∧
      compile c date source = .ok [⟨s.exports ++ ".luau", content⟩] := by
  obtain ⟨content, hrender, hcompile⟩ := @Luau.exists_content_of_parse c date source tokens hscan s hparse
  refine ⟨content, hrender, ?_⟩
  rw [compile_eq, hcompile]
  rfl

theorem compile_ok_iff : (∃ files, compile c date source = .ok files) ↔
    ∃ tokens s, (TokenStream.scan source).result = .ok tokens ∧ (Schema.parse tokens).result = .ok s := by
  constructor
  · rintro ⟨files, hfiles⟩
    cases hscan : (TokenStream.scan source).result with
    | error e => cases hfiles.symm.trans (compile_error_iff.2 (Luau.compile_error_iff.2 (.inl hscan)))
    | ok tokens =>
      cases hparse : (Schema.parse tokens).result with
      | error e =>
        cases hfiles.symm.trans (compile_error_iff.2 (Luau.compile_error_iff.2 (.inr ⟨tokens, hscan, hparse⟩)))
      | ok s => exact ⟨tokens, s, rfl, hparse⟩
  · rintro ⟨tokens, s, hscan, hparse⟩
    obtain ⟨content, -, hfiles⟩ := @exists_content_of_parse c date source tokens s hscan hparse
    exact ⟨_, hfiles⟩

theorem compile_eq_exportCount_iff : compile c date source = .error (.exportCount n) ↔
    (∃ tokens, (TokenStream.scan source).result = .ok tokens) ∧ Lexeme.texts source ≠ [] ∧
      ¬ ExportsOneName (Lexeme.texts source) ∧ n = (Lexeme.texts source).count "exports" := by
  have hempty {tokens : TokenStream} (hscan : (TokenStream.scan source).result = .ok tokens) :
      tokens.tokens ≠ [] ↔ Lexeme.texts source ≠ [] := by
    rw [← TokenStream.texts_of_scan hscan, ne_eq, ne_eq, List.map_eq_nil_iff]
  rw [compile_error_iff, Luau.compile_error_iff]
  constructor
  · rintro (hscan | ⟨tokens, hscan, hparse⟩)
    · rcases scan_error_cases hscan with ⟨_, _, he⟩ | ⟨_, he⟩ <;> cases he
    · obtain ⟨hne, hcount⟩ := parse_eq_exportCount_iff.1 hparse
      exact ⟨⟨tokens, hscan⟩, (hempty hscan).1 hne, (exportedName_eq_exportCount_iff hscan).1 hcount⟩
  · rintro ⟨⟨tokens, hscan⟩, hne, hcount⟩
    refine .inr ⟨tokens, hscan, parse_eq_exportCount_iff.2 ⟨(hempty hscan).2 hne, ?_⟩⟩
    exact (exportedName_eq_exportCount_iff hscan).2 hcount

end Guarded

/-- Nothing fails behind the front end, and the guards there are idle. A text is compiled exactly if it is scanned and
parsed, and then to one file with the name that it exports. That no name follows `exports`, or anything about files, is
never told. A wrong number of exports is told exactly of a text with words and no error in them that does not have one
`exports` followed by a name, and only by the first look: behind it, the second look finds the keyword and the name
again. And every schema that is parsed has the struct that it exports. -/
theorem guards_idle (c : Luau.Config) (date : Timestamp) (source : String) :
    Guarded.compile c date source = (Luau.compile c date source).map (fun file => [file]) ∧
    ((∃ files, Guarded.compile c date source = .ok files) ↔
      ∃ tokens s, (TokenStream.scan source).result = .ok tokens ∧ (Schema.parse tokens).result = .ok s) ∧
    (∀ tokens s, (TokenStream.scan source).result = .ok tokens → (Schema.parse tokens).result = .ok s →
      ∃ content, (Luau.render c date s).result = .ok content ∧
        Guarded.compile c date source = .ok [⟨s.exports ++ ".luau", content⟩]) ∧
    (∀ e, Guarded.compile c date source = .error e → (∀ p, e ≠ .exportNameExpected p) ∧ e.isOfFiles = false) ∧
    (∀ n, Guarded.compile c date source = .error (.exportCount n) ↔
      (∃ tokens, (TokenStream.scan source).result = .ok tokens) ∧ Lexeme.texts source ≠ [] ∧
        ¬ ExportsOneName (Lexeme.texts source) ∧ n = (Lexeme.texts source).count "exports") ∧
    ∀ tokens, (TokenStream.scan source).result = .ok tokens → Guarded.checkReady tokens = .ok () →
      ∀ known e, Guarded.readExports tokens known = .error e →
        (∀ n, e ≠ .exportCount n) ∧ ∀ p, e ≠ .exportNameExpected p := by
  refine ⟨Guarded.compile_eq c date source, Guarded.compile_ok_iff,
    fun tokens s => Guarded.exists_content_of_parse, fun e he => ?_, fun n => Guarded.compile_eq_exportCount_iff, ?_⟩
  · have hcompile := Guarded.compile_error_iff.1 he
    refine ⟨fun p => ?_, Luau.textual_compile c date source e hcompile⟩
    rcases Luau.compile_error_iff.1 hcompile with hscan | ⟨tokens, -, hparse⟩
    · rcases scan_error_cases hscan with ⟨_, _, rfl⟩ | ⟨_, rfl⟩ <;> simp
    · exact parse_ne_exportNameExpected hparse p
  · intro tokens hscan hready known e he
    rcases Guarded.readExports_error (TokenStream.numbered_of_scan hscan) hready he with ⟨_, _, rfl⟩ | ⟨_, rfl⟩ <;> simp

theorem guards_idle_without_export :
    Guarded.compile {} ⟨2024, 2, 29, 23, 59, 59⟩ "struct A \x7b field x u8 \x7d" = .error (.exportCount 0) := by
  have hscan : ∃ tokens, (TokenStream.scan "struct A \x7b field x u8 \x7d").result = .ok tokens :=
    ⟨⟨[⟨0, .keyword .struct, "struct", ⟨1, 1⟩⟩, ⟨1, .name .struct, "A", ⟨1, 8⟩⟩, ⟨2, .operator, "\x7b", ⟨1, 10⟩⟩,
      ⟨3, .keyword .field, "field", ⟨1, 12⟩⟩, ⟨4, .name .field, "x", ⟨1, 18⟩⟩, ⟨5, .typeName, "u8", ⟨1, 20⟩⟩,
      ⟨6, .operator, "\x7d", ⟨1, 23⟩⟩]⟩, by decide +kernel⟩
  have hwords : Lexeme.texts "struct A \x7b field x u8 \x7d" = ["struct", "A", "\x7b", "field", "x", "u8", "\x7d"] := by
    decide +kernel
  have hnone : ¬ ExportsOneName (Lexeme.texts "struct A \x7b field x u8 \x7d") := by
    rintro ⟨front, name, behind, htexts, -⟩
    have hmem : "exports" ∈ Lexeme.texts "struct A \x7b field x u8 \x7d" := by simp [htexts]
    rw [hwords] at hmem
    exact absurd hmem (by decide)
  obtain ⟨-, -, -, -, hcount, -⟩ := guards_idle {} ⟨2024, 2, 29, 23, 59, 59⟩ "struct A \x7b field x u8 \x7d"
  exact (hcount 0).2 ⟨hscan, by rw [hwords]; decide, hnone, by rw [hwords]; decide⟩

end Runs

end BufferSchema
