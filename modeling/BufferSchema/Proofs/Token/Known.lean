import BufferSchema.Proofs.Token.Indexed

/-!
# Texts of known words

The language knows its operators, names and digits. A text is scanned to its end exactly if it says nothing else and
starts with a keyword, and the tokens then say what the text says. So a list of such words can be laid out in any way
and be scanned.
-/

namespace BufferSchema

open Lexeme (Word)

namespace TokenStream

variable {source : String} {tokens : TokenStream}

/-- The tokens of a text that is scanned to its end say what its lexemes say. -/
theorem texts_of_scan (h : (scan source).result = .ok tokens) :
    tokens.tokens.map (·.lexeme) = Lexeme.texts source :=
  (describes_of_scan h).map_lexeme

/-- A text of words that the language knows, the first of them a keyword, is scanned to its end. -/
theorem scan_of_known
    (hws : ∀ w ∈ Lexeme.texts source, w ∈ Token.operators ∨ Word .identifier w.toList ∨ Word .int w.toList)
    (hlead : ∀ w, (Lexeme.texts source).head? = some w → ∃ k : Keyword, w = k.text) :
    ∃ tokens, (scan source).result = .ok tokens := by
  refine (exists_scan_iff source).2 ⟨fun l hl hmark => ?_, fun l hl => hlead l.text ?_⟩
  · have hword := Lexeme.word_of_mem_words hl
    rw [hmark] at hword
    rcases hws l.text (List.mem_map_of_mem hl) with h | h | h
    · exact h
    · cases Token.word_kind_unique hword h
    · cases Token.word_kind_unique hword h
  · rw [Lexeme.texts, List.head?_map, hl]
    rfl

/-- No other text is scanned to its end. -/
theorem known_of_scan (h : (scan source).result = .ok tokens) :
    (∀ w ∈ Lexeme.texts source, w ∈ Token.operators ∨ Word .identifier w.toList ∨ Word .int w.toList) ∧
      ∀ w, (Lexeme.texts source).head? = some w → ∃ k : Keyword, w = k.text := by
  obtain ⟨hmarks, hhead⟩ := (exists_scan_iff source).1 ⟨tokens, h⟩
  constructor
  · intro w hw
    obtain ⟨l, hl, rfl⟩ := List.mem_map.1 hw
    have hword := Lexeme.word_of_mem_words hl
    cases hkind : l.kind with
    | mark => exact .inl (hmarks l hl hkind)
    | identifier => exact .inr (.inl (hkind ▸ hword))
    | int => exact .inr (.inr (hkind ▸ hword))
    | comment =>
      rw [hkind] at hword
      cases hword
  · intro w hw
    rw [Lexeme.texts, List.head?_map] at hw
    obtain ⟨l, hl, rfl⟩ := Option.map_eq_some_iff.1 hw
    exact hhead l hl

/-- A word that the language knows stays one lexeme with a gap on each side. -/
theorem word_of_known {w : String} (h : w ∈ Token.operators ∨ Word .identifier w.toList ∨ Word .int w.toList) :
    w.toList ≠ ['/'] ∧ ∃ k, Word k w.toList := by
  rcases h with h | h | h
  · refine ⟨?_, .mark, Token.word_operator h⟩
    intro heq
    rw [← String.ofList_toList (s := w), heq] at h
    exact absurd h (by decide)
  · refine ⟨?_, .identifier, h⟩
    intro heq
    rw [heq] at h
    cases h with
    | identifier h => exact absurd h.1 (by decide)
  · refine ⟨?_, .int, h⟩
    intro heq
    rw [heq] at h
    cases h with
    | int _ h => exact absurd (h '/' (by simp)) (by decide)

/-- A text laid out as words that the language knows, the first of them a keyword, is scanned into
tokens with these texts. -/
theorem scan_laidOut {ws : List String} {gap cs : List Char} (hgap : Lexeme.Gap gap)
    (hlaid : Lexeme.LaidOut ws cs)
    (hws : ∀ w ∈ ws, w ∈ Token.operators ∨ Word .identifier w.toList ∨ Word .int w.toList)
    (hlead : ∀ w, ws.head? = some w → ∃ k : Keyword, w = k.text) :
    ∃ tokens, (scan (String.ofList (gap ++ cs))).result = .ok tokens ∧ tokens.tokens.map (·.lexeme) = ws := by
  have htexts : Lexeme.texts (String.ofList (gap ++ cs)) = ws := by
    rw [Lexeme.texts, String.toList_ofList, Lexeme.words_gap hgap]
    exact Lexeme.text_words_of_laidOut hlaid fun w hw => word_of_known (hws w hw)
  obtain ⟨tokens, hscan⟩ := scan_of_known (htexts.symm ▸ hws) (htexts.symm ▸ hlead)
  exact ⟨tokens, hscan, (texts_of_scan hscan).trans htexts⟩

end TokenStream

end BufferSchema
