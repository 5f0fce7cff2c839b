import BufferSchema.Proofs.Token.Classified
import BufferSchema.Proofs.Token.Faults
import BufferSchema.Token.Indexed
import Mathlib.Data.List.Induction

/-!
# What is accepted, and where the keywords are

Which texts are scanned to their end, what the tokens of these are, and which error the others end with, said of the
lexemes of a text and not of the way in which they are gone over. The pass that keeps an index beside the tokens is
followed lexeme by lexeme: `Describes` says what is kept when some lexemes have been gone over. It comes to the
tokens of the text, and its lists hold exactly the numbers at which these tokens have the texts of the keywords.
-/

namespace BufferSchema

open Lexeme (Word)

namespace Token

variable {l : Lexeme}

/-- The kind of the token that a lexeme of the given kind and text becomes, by the text of the token before it. There
is none for a comment and for a mark that the grammar does not use. -/
def Kind.behind? (before? : Option String) (kind : Lexeme.Kind) (text : String) : Option Kind :=
  match kind with
  | .comment => none
  | .int => some .int
  | .mark => if text ∈ operators then some .operator else none
  | .identifier =>
    match Keyword.ofText? text with
    | some k => some (.keyword k)
    | none => some (.ofName before?)

theorem Kind.behind?_eq_keyword_iff (hword : Word l.kind l.text.toList) (before? : Option String) (k : Keyword) :
    Kind.behind? before? l.kind l.text = some (.keyword k) ↔ l.text = k.text := by
  constructor
  · intro h
    unfold behind? at h
    split at h
    · cases h
    · cases h
    · split at h <;> cases h
    · split at h
      · next k' hk =>
        obtain rfl : k' = k := by simpa using h
        exact Keyword.ofText?_eq_some_iff.1 hk
      · unfold ofName at h
        split at h <;> cases h
  · intro htext
    rw [htext] at hword
    have hl := word_kind_unique hword (word_keyword k)
    simp [behind?, hl, Keyword.ofText?_eq_some_iff.2 htext]

/-- The text of the token before a lexeme says as much about it as the kind does. -/
theorem Kind.ofLexeme?_eq_behind? {before? : Option Kind} {text? : Option String}
    (h : ∀ k, before? = some (.keyword k) ↔ text?.bind Keyword.ofText? = some k) :
    Kind.ofLexeme? before? l = Kind.behind? text? l.kind l.text := by
  unfold ofLexeme? behind?
  cases l.kind with
  | identifier =>
    dsimp only
    cases Keyword.ofText? l.text with
    | some k => rfl
    | none =>
      unfold ofName
      dsimp only
      split
      · next k => rw [(h k).1 rfl]
      · next hnone =>
        cases hk : text?.bind Keyword.ofText? with
        | none => rfl
        | some k => exact absurd ((h k).2 hk) (hnone k)
  | _ => rfl

/-- A mark that the grammar does not use is all that has no place in a text. -/
theorem Kind.behind?_eq_none_iff (h : l.kind ≠ .comment) (before? : Option String) :
    Kind.behind? before? l.kind l.text = none ↔ l.kind = .mark ∧ l.text ∉ operators := by
  unfold behind?
  cases hkind : l.kind with
  | comment => exact absurd hkind h
  | int => simp
  | mark => simp
  | identifier =>
    dsimp only
    cases Keyword.ofText? l.text <;> simp

end Token

namespace IndexedTokens

variable {s : IndexedTokens} {l : Lexeme}

/-- The next token put on the list of its keyword, if it is one. -/
def noteKind (s : IndexedTokens) : Token.Kind → IndexedTokens
  | .keyword k => s.note k
  | _ => s

theorem tokens_noteKind (s : IndexedTokens) (kind : Token.Kind) : (s.noteKind kind).tokens = s.tokens := by
  cases kind with
  | keyword k => cases k <;> rfl
  | _ => rfl

theorem noteKind_ofName (s : IndexedTokens) (before? : Option String) : s.noteKind (.ofName before?) = s := by
  unfold Token.Kind.ofName
  split <;> rfl

theorem numbers_noteKind (s : IndexedTokens) (kind : Token.Kind) (k : Keyword) :
    (s.noteKind kind).numbers k = if kind = .keyword k then s.numbers k ++ [s.tokens.length] else s.numbers k := by
  cases kind with
  | keyword k' => cases k' <;> cases k <;> rfl
  | _ => rfl

theorem numbers_tokens (s : IndexedTokens) (ts : List Token) (k : Keyword) :
    { s with tokens := ts }.numbers k = s.numbers k := by
  cases k <;> rfl

/-- What is kept when the lexeme `l` has become a token of the given kind. -/
def add (s : IndexedTokens) (kind : Token.Kind) (l : Lexeme) : IndexedTokens :=
  { s.noteKind kind with tokens := s.tokens ++ [⟨s.tokens.length, kind, l.text, l.position⟩] }

@[simp] theorem tokens_add (s : IndexedTokens) (kind : Token.Kind) (l : Lexeme) :
    (s.add kind l).tokens = s.tokens ++ [⟨s.tokens.length, kind, l.text, l.position⟩] := rfl

theorem numbers_add (s : IndexedTokens) (kind : Token.Kind) (l : Lexeme) (k : Keyword) :
    (s.add kind l).numbers k = if kind = .keyword k then s.numbers k ++ [s.tokens.length] else s.numbers k := by
  rw [add, numbers_tokens, numbers_noteKind]

/-- A lexeme that is no comment is refused for its kind or for its place, or it becomes a token. A keyword is put on
its list before it is known that it is accepted, but a keyword always is. -/
theorem enter_eq (h : l.kind ≠ .comment) :
    s.enter l =
      match Token.Kind.behind? (s.tokens.getLast?.map (·.lexeme)) l.kind l.text with
      | none => .error (.unknownOperator l.text l.position)
      | some kind =>
        if s.tokens.isEmpty && !kind.isKeyword then .error (.leadingToken l.text) else .ok (s.add kind l) := by
  have haccept : ∀ kind, (s.noteKind kind).accept kind l =
      if s.tokens.isEmpty && !kind.isKeyword then .error (.leadingToken l.text) else .ok (s.add kind l) := by
    intro kind
    unfold accept add
    rw [tokens_noteKind]
  unfold enter Token.Kind.behind?
  cases hkind : l.kind with
  | comment => exact absurd hkind h
  | int => exact haccept .int
  | mark =>
    by_cases htext : l.text ∈ Token.operators
    · simp only [if_pos htext]
      exact haccept .operator
    · simp only [if_neg htext]
  | identifier =>
    dsimp only
    cases Keyword.ofText? l.text with
    | some k => exact haccept (.keyword k)
    | none =>
      have hname := haccept (.ofName (s.tokens.getLast?.map (·.lexeme)))
      rwa [noteKind_ofName] at hname

/-- The text of the lexeme in front of the one with the number `i`. -/
def textBefore? (ls : List Lexeme) (i : Nat) : Option String := (ls.take i).getLast?.map (·.text)

/-- What is kept when the lexemes `ls`, none of them a comment, have been gone over. There is a token for each of them
with its number, text and place and with the kind that its own kind, its text and the text in front of it settle. The
list of a keyword goes up and has the numbers of the lexemes that are spelled like the keyword, and no others. -/
structure Describes (ls : List Lexeme) (s : IndexedTokens) : Prop where
  length_eq : s.tokens.length = ls.length
  token : ∀ i l, ls[i]? = some l → ∃ kind, Token.Kind.behind? (textBefore? ls i) l.kind l.text = some kind ∧
    s.tokens[i]? = some ⟨i, kind, l.text, l.position⟩
  mem_numbers : ∀ k i, i ∈ s.numbers k ↔ ∃ l, ls[i]? = some l ∧ l.text = k.text
  increasing : ∀ k, (s.numbers k).Pairwise (· < ·)

section Steps

variable {ls : List Lexeme}

theorem textBefore?_append {i : Nat} (h : i ≤ ls.length) (more : List Lexeme) :
    textBefore? (ls ++ more) i = textBefore? ls i := by
  rw [textBefore?, List.take_append_of_le_length h, textBefore?]

theorem textBefore?_length : textBefore? ls ls.length = ls.getLast?.map (·.text) := by
  rw [textBefore?, List.take_length]

theorem Describes.nil : Describes [] {} where
  length_eq := rfl
  token := by simp
  mem_numbers := by
    intro k i
    cases k <;> simp [numbers]
  increasing := by
    intro k
    cases k <;> exact .nil

theorem Describes.map_placed (h : Describes ls s) :
    s.tokens.map (fun t => (t.lexeme, t.position)) = ls.map fun l => (l.text, l.position) := by
  refine List.ext_getElem? fun i => ?_
  rw [List.getElem?_map, List.getElem?_map]
  cases hl : ls[i]? with
  | none =>
    have hi : ls.length ≤ i := List.getElem?_eq_none_iff.1 hl
    rw [List.getElem?_eq_none (h.length_eq ▸ hi)]
    rfl
  | some l =>
    obtain ⟨kind, -, htoken⟩ := h.token i l hl
    rw [htoken]
    rfl

theorem Describes.map_lexeme (h : Describes ls s) : s.tokens.map (·.lexeme) = ls.map (·.text) := by
  have hfirst := congrArg (List.map Prod.fst) h.map_placed
  rwa [List.map_map, List.map_map] at hfirst

theorem Describes.lexeme_getLast? (h : Describes ls s) :
    s.tokens.getLast?.map (·.lexeme) = ls.getLast?.map (·.text) := by
  rw [← List.getLast?_map, h.map_lexeme, List.getLast?_map]

theorem Describes.isEmpty_iff (h : Describes ls s) : s.tokens.isEmpty = true ↔ ls.length = 0 := by
  rw [List.isEmpty_iff_length_eq_zero, h.length_eq]

/-- An accepted lexeme keeps the description. -/
theorem Describes.add (h : Describes ls s) (hword : Word l.kind l.text.toList) {kind : Token.Kind}
    (hkind : Token.Kind.behind? (ls.getLast?.map (·.text)) l.kind l.text = some kind) :
    Describes (ls ++ [l]) (s.add kind l) where
  length_eq := by rw [tokens_add, List.length_append, List.length_append, h.length_eq]; rfl
  token := by
    intro i m hm
    rcases Lexeme.getElem?_concat_iff.1 hm with hm | ⟨rfl, rfl⟩
    · have hi : i < ls.length := (List.getElem?_eq_some_iff.1 hm).1
      obtain ⟨kind', hkind', htoken⟩ := h.token i m hm
      refine ⟨kind', by rwa [textBefore?_append hi.le], ?_⟩
      rw [tokens_add, List.getElem?_append_left (h.length_eq ▸ hi), htoken]
    · refine ⟨kind, by rwa [textBefore?_append (Nat.le_refl _), textBefore?_length], ?_⟩
      rw [tokens_add, ← h.length_eq, List.getElem?_concat_length]
  mem_numbers := by
    intro k i
    have hkey := Token.Kind.behind?_eq_keyword_iff hword (ls.getLast?.map (·.text)) k
    rw [hkind, Option.some.injEq] at hkey
    -- The list goes by the kind of the new token and the description by its text: `hkey` says that this is the same.
    have hconcat : (∃ m, (ls ++ [l])[i]? = some m ∧ m.text = k.text) ↔
        (∃ m, ls[i]? = some m ∧ m.text = k.text) ∨ i = ls.length ∧ l.text = k.text := by
      simp only [Lexeme.getElem?_concat_iff, or_and_right, exists_or, and_assoc, exists_and_left, exists_eq_left']
    rw [numbers_add, hconcat, ← h.mem_numbers, ← hkey, h.length_eq]
    split
    · next heq => simp [heq]
    · next heq => simp [heq]
  increasing := by
    intro k
    rw [numbers_add]
    split
    · refine List.pairwise_append.2 ⟨h.increasing k, List.pairwise_singleton _ _, fun i hi j hj => ?_⟩
      obtain ⟨m, hm, -⟩ := (h.mem_numbers k i).1 hi
      rw [List.mem_singleton.1 hj, h.length_eq]
      exact (List.getElem?_eq_some_iff.1 hm).1
    · exact h.increasing k

/-- What one lexeme does: it has a fault and ends the pass, or it has none and the description goes on. -/
theorem Describes.enter (h : Describes ls s) (hcomment : l.kind ≠ .comment) (hword : Word l.kind l.text.toList) :
    (∃ e, s.enter l = .error e ∧ l.Fault ls.length e) ∨
      ∃ s', s.enter l = .ok s' ∧ (∀ e, ¬ l.Fault ls.length e) ∧ Describes (ls ++ [l]) s' := by
  have hunknown := Token.Kind.behind?_eq_none_iff hcomment (ls.getLast?.map (·.text))
  have hkey := Token.Kind.behind?_eq_keyword_iff hword (ls.getLast?.map (·.text))
  rw [enter_eq hcomment, h.lexeme_getLast?]
  cases hkind : Token.Kind.behind? (ls.getLast?.map (·.text)) l.kind l.text with
  | none =>
    obtain ⟨hmark, htext⟩ := hunknown.1 hkind
    exact .inl ⟨_, rfl, .unknown hmark htext⟩
  | some kind =>
    simp only [hkind, Option.some.injEq, reduceCtorEq, false_iff, not_and, not_not] at hunknown hkey
    dsimp only
    split
    · next hlead =>
      obtain ⟨hempty, hnokey⟩ : s.tokens.isEmpty = true ∧ kind.isKeyword = false := by simpa using hlead
      refine .inl ⟨_, rfl, ?_⟩
      rw [h.isEmpty_iff.1 hempty]
      refine .leading hunknown fun k hk => ?_
      rw [(hkey k).2 hk] at hnokey
      cases hnokey
    · next hlead =>
      refine .inr ⟨_, rfl, fun e hfault => ?_, h.add hword hkind⟩
      generalize hn : ls.length = n at hfault
      cases hfault with
      | unknown hmark htext => exact htext (hunknown hmark)
      | leading _ hnokey =>
        refine hlead ?_
        rw [h.isEmpty_iff.2 hn, Bool.true_and, Bool.not_eq_true']
        cases kind with
        | keyword k => exact absurd ((hkey k).1 rfl) (hnokey k)
        | _ => rfl

/-- What a whole pass comes to, by induction from the end of the lexemes. -/
theorem describes_foldlM (hls : ∀ l ∈ ls, l.kind ≠ .comment ∧ Word l.kind l.text.toList) :
    (∃ e, ls.foldlM IndexedTokens.enter {} = .error e ∧ Lexeme.FirstFault ls e) ∨
      ∃ s, ls.foldlM IndexedTokens.enter {} = .ok s ∧ Lexeme.Faultless ls ∧ Describes ls s := by
  induction ls using List.reverseRecOn with
  | nil => exact .inr ⟨{}, rfl, ⟨by simp, by simp⟩, .nil⟩
  | append_singleton ls l ih =>
    obtain ⟨hcomment, hword⟩ := hls l (by simp)
    rw [List.foldlM_append]
    rcases ih fun m hm => hls m (List.mem_append_left [l] hm) with ⟨e, hrun, hfault⟩ | ⟨s, hrun, hnone, hdesc⟩
    · rw [hrun]
      exact .inl ⟨e, rfl, hfault.append [l]⟩
    · have hstep : (ls.foldlM IndexedTokens.enter {} >>= fun s => [l].foldlM IndexedTokens.enter s) = s.enter l := by
        rw [hrun]
        exact bind_pure (s.enter l)
      rw [hstep]
      rcases hdesc.enter hcomment hword with ⟨e, he, hfault⟩ | ⟨s', hs', hnone', hdesc'⟩
      · exact .inl ⟨e, he, hnone.firstFault_concat hfault⟩
      · exact .inr ⟨s', hs', hnone.concat hnone', hdesc'⟩

end Steps

/-- A comment changes nothing. -/
theorem foldlM_filter (ls : List Lexeme) (s : IndexedTokens) :
    (ls.filter (·.kind != .comment)).foldlM enter s = ls.foldlM enter s := by
  induction ls generalizing s with
  | nil => rfl
  | cons l ls ih =>
    rw [List.foldlM_cons]
    by_cases hcomment : l.kind = .comment
    · have henter : s.enter l = .ok s := by simp only [enter, hcomment]
      rw [List.filter_cons_of_neg (by simp [hcomment]), ih, henter]
      rfl
    · rw [List.filter_cons_of_pos (by simpa using hcomment), List.foldlM_cons]
      exact congrArg _ (funext fun s' => ih s')

theorem ofText_eq_foldlM_words (source : String) :
    ofText source = (Lexeme.words .start source.toList).foldlM enter {} :=
  (foldlM_filter (Lexeme.ofText source) {}).symm

end IndexedTokens

namespace TokenStream

open IndexedTokens (Describes)

/-- The tokens of a stream with the lists of its keywords. -/
def indexed (s : TokenStream) : IndexedTokens :=
  ⟨s.tokens, s.occurrences .struct, s.occurrences .field, s.occurrences .exports⟩

@[simp] theorem tokens_indexed (s : TokenStream) : s.indexed.tokens = s.tokens := rfl

@[simp] theorem numbers_indexed (s : TokenStream) (k : Keyword) : s.indexed.numbers k = s.occurrences k := by
  cases k <;> rfl

theorem occurrences_concat (ts : List Token) (t : Token) (k : Keyword) :
    occurrences ⟨ts ++ [t]⟩ k = occurrences ⟨ts⟩ k ++ if t.isSpelled k.text then [t.index] else [] := by
  unfold occurrences
  rw [List.filter_append, List.map_append]
  congr 1
  cases h : t.isSpelled k.text <;> simp [h]

/-- A token that is a keyword exactly if it is spelled like it. -/
def Told (t : Token) : Prop := ∀ k : Keyword, t.kind = .keyword k ↔ t.lexeme = k.text

theorem Told.isSpelled_iff {t : Token} (h : Told t) (k : Keyword) :
    t.isSpelled k.text = true ↔ t.kind = .keyword k := by
  rw [Token.isSpelled_iff]
  refine ⟨fun ⟨_, htext⟩ => (h k).2 htext, fun hkind => ⟨?_, (h k).1 hkind⟩⟩
  rw [hkind]
  exact nofun

theorem add_indexed {ts : List Token} {kind : Token.Kind} {l : Lexeme}
    (h : Told ⟨ts.length, kind, l.text, l.position⟩) :
    (indexed ⟨ts⟩).add kind l = indexed ⟨ts ++ [⟨ts.length, kind, l.text, l.position⟩]⟩ := by
  have hnumbers : ∀ k, ((indexed ⟨ts⟩).add kind l).numbers k =
      (indexed ⟨ts ++ [⟨ts.length, kind, l.text, l.position⟩]⟩).numbers k := by
    intro k
    rw [IndexedTokens.numbers_add, numbers_indexed, numbers_indexed, occurrences_concat]
    by_cases hk : kind = .keyword k
    · rw [if_pos hk, if_pos ((h.isSpelled_iff k).2 hk)]
      rfl
    · rw [if_neg hk, if_neg fun hspelled => hk ((h.isSpelled_iff k).1 hspelled), List.append_nil]
  have hstructs := hnumbers .struct
  have hfields := hnumbers .field
  have hexports := hnumbers .exports
  simp only [IndexedTokens.numbers] at hstructs hfields hexports
  exact IndexedTokens.ext rfl hstructs hfields hexports

/-- What a scan that went on behind the tokens `ts` comes to, with the lists of the keywords made at its end. -/
def indexScan (ts : List Token) (s : Scan) : Except CompileError IndexedTokens :=
  match s.failure with
  | some e => .error e
  | none => .ok (indexed ⟨ts ++ s.accepted⟩)

theorem indexScan_cons (ts : List Token) (t : Token) (s : Scan) :
    indexScan ts ⟨t :: s.accepted, s.failure⟩ = indexScan (ts ++ [t]) s := by
  simp [indexScan]

/-- Going on behind some tokens comes to the same whether the lists of the keywords are kept up or made at the end. -/
theorem foldlM_indexed {ls : List Lexeme} (hls : ∀ l ∈ ls, l.kind ≠ .comment ∧ Word l.kind l.text.toList)
    (ts : List Token) (hts : ∀ t ∈ ts, Told t) :
    ls.foldlM IndexedTokens.enter (indexed ⟨ts⟩) =
      indexScan ts (Scan.accept ts.length (ts.getLast?.map (·.kind)) ls) := by
  induction ls generalizing ts with
  | nil => simp [Scan.accept, indexScan, pure, Except.pure]
  | cons l ls ih =>
    obtain ⟨hcomment, hword⟩ := hls l List.mem_cons_self
    have hbefore : Token.Kind.ofLexeme? (ts.getLast?.map (·.kind)) l =
        Token.Kind.behind? (ts.getLast?.map (·.lexeme)) l.kind l.text := by
      refine Token.Kind.ofLexeme?_eq_behind? fun k => ?_
      cases ht : ts.getLast? with
      | none => simp
      | some t =>
        have htold := hts t (List.mem_of_getLast? ht) k
        simpa [Keyword.ofText?_eq_some_iff] using htold
    have hlead : (ts.getLast?.map (·.kind)).isNone = ts.isEmpty := by
      cases ts <;> simp
    rw [List.foldlM_cons, IndexedTokens.enter_eq hcomment, Scan.accept, hbefore, hlead, tokens_indexed]
    cases hkind : Token.Kind.behind? (ts.getLast?.map (·.lexeme)) l.kind l.text with
    | none => rfl
    | some kind =>
      dsimp only
      split
      · rfl
      · have htold : Told ⟨ts.length, kind, l.text, l.position⟩ := by
          intro k
          have hkey := Token.Kind.behind?_eq_keyword_iff hword (ts.getLast?.map (·.lexeme)) k
          rwa [hkind, Option.some.injEq] at hkey
        have htold' : ∀ t ∈ ts ++ [⟨ts.length, kind, l.text, l.position⟩], Told t := by
          intro t ht
          rcases List.mem_append.1 ht with ht | ht
          · exact hts t ht
          · rw [List.mem_singleton.1 ht]
            exact htold
        have hrest := ih (fun m hm => hls m (List.mem_cons_of_mem l hm)) _ htold'
        rw [List.length_append, List.length_singleton, List.getLast?_concat] at hrest
        rw [add_indexed htold, indexScan_cons]
        exact hrest

theorem uncommented_of_mem_words (source : String) :
    ∀ l ∈ Lexeme.words .start source.toList, l.kind ≠ .comment ∧ Word l.kind l.text.toList := by
  intro l hl
  refine ⟨?_, Lexeme.word_of_mem_words hl⟩
  simpa using (List.mem_filter.1 hl).2

/-- The pass that keeps an index is a scan. -/
theorem ofText_eq_map_indexed (source : String) :
    IndexedTokens.ofText source = (scan source).result.map indexed := by
  have hpass : IndexedTokens.ofText source = indexScan [] (Scan.ofText source) := by
    rw [IndexedTokens.ofText_eq_foldlM_words]
    exact foldlM_indexed (uncommented_of_mem_words source) [] (by simp)
  rw [hpass]
  simp only [scan, indexScan]
  cases (Scan.ofText source).failure <;> rfl

/-- What the scan of a text comes to. -/
theorem scan_outcome (source : String) :
    (∃ e, (scan source).result = .error e ∧ Lexeme.FirstFault (Lexeme.words .start source.toList) e) ∨
      ∃ s, (scan source).result = .ok s ∧ Lexeme.Faultless (Lexeme.words .start source.toList) ∧
        Describes (Lexeme.words .start source.toList) s.indexed := by
  have hrun := IndexedTokens.describes_foldlM (uncommented_of_mem_words source)
  rw [← IndexedTokens.ofText_eq_foldlM_words, ofText_eq_map_indexed] at hrun
  cases hresult : (scan source).result with
  | error e =>
    rw [hresult] at hrun
    rcases hrun with ⟨e', he, hfault⟩ | ⟨s, hs, -⟩
    · obtain rfl : e = e' := Except.error.inj he
      exact .inl ⟨e, rfl, hfault⟩
    · cases hs
  | ok s =>
    rw [hresult] at hrun
    rcases hrun with ⟨e, he, -⟩ | ⟨s', hs, hnone, hdesc⟩
    · cases he
    · obtain rfl : s.indexed = s' := Except.ok.inj hs
      exact .inr ⟨s, rfl, hnone, hdesc⟩

theorem exists_scan_iff (source : String) :
    (∃ s, (scan source).result = .ok s) ↔ Lexeme.Faultless (Lexeme.words .start source.toList) := by
  rcases scan_outcome source with ⟨e, he, hfault⟩ | ⟨s, hs, hnone, -⟩
  · refine ⟨?_, fun hnone => absurd hnone hfault.not_faultless⟩
    rintro ⟨s, hs⟩
    cases he.symm.trans hs
  · exact ⟨fun _ => hnone, fun _ => ⟨s, hs⟩⟩

theorem scan_eq_error_iff (source : String) (e : CompileError) :
    (scan source).result = .error e ↔ Lexeme.FirstFault (Lexeme.words .start source.toList) e := by
  rcases scan_outcome source with ⟨e', he, hfault⟩ | ⟨s, hs, hnone, -⟩
  · constructor
    · intro he'
      obtain rfl : e' = e := Except.error.inj (he.symm.trans he')
      exact hfault
    · intro hfault'
      rw [he, hfault.unique hfault']
  · refine ⟨?_, fun hfault => absurd hnone hfault.not_faultless⟩
    intro he
    cases hs.symm.trans he

theorem describes_of_scan {source : String} {s : TokenStream} (h : (scan source).result = .ok s) :
    Describes (Lexeme.words .start source.toList) s.indexed := by
  rcases scan_outcome source with ⟨e, he, -⟩ | ⟨s', hs', -, hdesc⟩
  · cases h.symm.trans he
  · obtain rfl : s = s' := Except.ok.inj (h.symm.trans hs')
    exact hdesc

/-- A text is scanned to its end exactly if all its marks are used by the grammar and it starts with a keyword or is
empty, and otherwise the first lexeme at fault gives the error. The tokens are the lexemes without the comments, each
with its number, text and place and with the kind that its kind, its text and the text in front of it settle. A single
pass that puts the number of each keyword on a list before it accepts it comes to the same, with lists that go up and
have exactly the numbers of the tokens spelled like the keywords. -/
theorem scan_classifies (source : String) :
    ((∃ s, (scan source).result = .ok s) ↔ Lexeme.Faultless (Lexeme.words .start source.toList)) ∧
      (∀ e, (scan source).result = .error e ↔ Lexeme.FirstFault (Lexeme.words .start source.toList) e) ∧
      IndexedTokens.ofText source = (scan source).result.map indexed ∧
      ∀ s, (scan source).result = .ok s → Describes (Lexeme.words .start source.toList) s.indexed :=
  ⟨exists_scan_iff source, scan_eq_error_iff source, ofText_eq_map_indexed source, fun _ => describes_of_scan⟩

end TokenStream

end BufferSchema
