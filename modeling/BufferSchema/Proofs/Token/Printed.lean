import BufferSchema.Proofs.Token.Known
import BufferSchema.Proofs.Token.Unplaced

/-!
# Printing tokens

The texts of the tokens with one blank between any two of them are a text that says what the tokens say. Scanning it
gives the same tokens but for their places, whatever stood between them in the text they come from, or whether
anything did. All that such a text loses are blanks and comments.
-/

namespace BufferSchema

open Lexeme (Word)

namespace Lexeme

theorem toList_intercalate_blank (ws : List String) : (" ".intercalate ws).toList = spaced ws := by
  induction ws with
  | nil => rfl
  | cons w ws ih =>
    cases ws with
    | nil => simp [spaced]
    | cons w' ws =>
      rw [String.intercalate_cons_cons, String.toList_append, String.toList_append, ih, spaced, List.append_assoc]
      rfl

/-- Words with a blank between any two of them are read as they are. -/
theorem texts_intercalate_blank {ws : List String} (hws : ∀ w ∈ ws, w.toList ≠ ['/'] ∧ ∃ k, Word k w.toList) :
    texts (" ".intercalate ws) = ws := by
  rw [texts, toList_intercalate_blank]
  cases ws with
  | nil =>
    rw [spaced, words_nil]
    rfl
  | cons w ws => exact text_words_of_laidOut (laidOut_spaced w ws) hws

/-- A text settles the kind of a word. -/
theorem map_kind_text_eq {ls ls' : List Lexeme} (hls : ∀ l ∈ ls, Word l.kind l.text.toList)
    (hls' : ∀ l ∈ ls', Word l.kind l.text.toList) (h : ls.map (·.text) = ls'.map (·.text)) :
    ls.map (fun l => (l.kind, l.text)) = ls'.map fun l => (l.kind, l.text) := by
  induction ls generalizing ls' with
  | nil =>
    obtain rfl : ls' = [] := by simpa using h.symm
    rfl
  | cons l ls ih =>
    cases ls' with
    | nil => cases h
    | cons l' ls' =>
      obtain ⟨htext, hrest⟩ : l.text = l'.text ∧ ls.map (·.text) = ls'.map (·.text) := List.cons.inj h
      have hword := hls l List.mem_cons_self
      have hword' := hls' l' List.mem_cons_self
      rw [← htext] at hword'
      rw [List.map_cons, List.map_cons, Token.word_kind_unique hword hword', htext,
        ih (fun m hm => hls m (List.mem_cons_of_mem l hm)) (fun m hm => hls' m (List.mem_cons_of_mem l' hm)) hrest]

end Lexeme

/-- All of a token but its place. -/
def Token.content (t : Token) : Nat × Kind × String := (t.index, t.kind, t.lexeme)

namespace TokenStream

variable {source : String} {s s' : TokenStream}

/-- The texts of the tokens with one blank between any two of them. -/
def printed (s : TokenStream) : String := " ".intercalate (s.tokens.map (·.lexeme))

theorem texts_printed (h : (scan source).result = .ok s) : Lexeme.texts s.printed = Lexeme.texts source := by
  obtain ⟨hknown, -⟩ := known_of_scan h
  rw [printed, texts_of_scan h]
  exact Lexeme.texts_intercalate_blank fun w hw => word_of_known (hknown w hw)

/-! What the places of tokens have no part in. -/

theorem map_content_unplaced (s : TokenStream) : s.unplaced.tokens.map Token.content = s.tokens.map Token.content := by
  rw [unplaced, List.map_map]
  rfl

theorem printed_unplaced (s : TokenStream) : s.unplaced.printed = s.printed := by
  rw [printed, printed, unplaced, List.map_map]
  rfl

theorem occurrences_unplaced (s : TokenStream) (k : Keyword) : s.unplaced.occurrences k = s.occurrences k := by
  rw [occurrences, occurrences, unplaced, List.filter_map, List.map_map]
  rfl

/-- Scanning what is printed gives the same tokens but for their places. -/
theorem unplaced_of_printed (h : (scan source).result = .ok s) :
    ∃ s', (scan s.printed).result = .ok s' ∧ s'.unplaced = s.unplaced := by
  have htexts := texts_printed h
  obtain ⟨hknown, hlead⟩ := known_of_scan h
  obtain ⟨s', hs'⟩ := scan_of_known (htexts.symm ▸ hknown) (htexts.symm ▸ hlead)
  have hsame := unplaced_scan (Lexeme.map_kind_text_eq (fun l hl => Lexeme.word_of_mem_words hl)
    (fun l hl => Lexeme.word_of_mem_words hl) htexts)
  rw [h, hs', unplacedBy_ok, unplacedBy_ok] at hsame
  exact ⟨s', hs', Except.ok.inj hsame⟩

/-- Between blanks, a text has its tokens and comments, and nothing else. -/
theorem splits_of_scan (h : (scan source).result = .ok s) :
    ∃ pieces, Lexeme.Splits source.toList pieces ∧
      s.tokens.map (·.lexeme.toList) = (pieces.filter (·.1 != .comment)).map (·.2) := by
  refine ⟨(Lexeme.ofText source).map Lexeme.spelled, Lexeme.splits_ofChars .start source.toList, ?_⟩
  have htexts := congrArg (List.map String.toList) (texts_of_scan h)
  rw [Lexeme.texts, List.map_map, List.map_map] at htexts
  rw [List.filter_map, List.map_map]
  exact htexts

/-- The tokens of a text, printed and scanned again, are the same tokens but for their places, with the same numbers
for the keywords, and printing them again gives the same text. What is not printed are blanks and comments. -/
theorem scan_printed (h : (scan source).result = .ok s) :
    (∃ s', (scan s.printed).result = .ok s' ∧ s'.tokens.map Token.content = s.tokens.map Token.content ∧
      (∀ k, s'.occurrences k = s.occurrences k) ∧ s'.printed = s.printed) ∧
    ∃ pieces, Lexeme.Splits source.toList pieces ∧
      s.tokens.map (·.lexeme.toList) = (pieces.filter (·.1 != .comment)).map (·.2) := by
  obtain ⟨s', hs', hsame⟩ := unplaced_of_printed h
  refine ⟨⟨s', hs', ?_, fun k => ?_, ?_⟩, splits_of_scan h⟩
  · rw [← map_content_unplaced, hsame, map_content_unplaced]
  · rw [← occurrences_unplaced, hsame, occurrences_unplaced]
  · rw [← printed_unplaced, hsame, printed_unplaced]

/-- Tokens that touch each other and a comment that keeps two of them apart. -/
theorem glued_printed :
    ∃ s, (scan "struct A\x7bfield/**/b:[05]u8]5u8\x7d// end").result = .ok s ∧
      s.printed = "struct A \x7b field b : [ 05 ] u8 ] 5 u8 \x7d" ∧
      ∃ s', (scan "struct A \x7b field b : [ 05 ] u8 ] 5 u8 \x7d").result = .ok s' ∧
        s'.tokens.map Token.content = s.tokens.map Token.content := by
  have hfailure : (Scan.ofText "struct A\x7bfield/**/b:[05]u8]5u8\x7d// end").failure = none := by decide +kernel
  have hscan := scan_result_eq_ok_iff.2 ⟨hfailure, rfl⟩
  have hprinted : printed ⟨(Scan.ofText "struct A\x7bfield/**/b:[05]u8]5u8\x7d// end").accepted⟩ =
      "struct A \x7b field b : [ 05 ] u8 ] 5 u8 \x7d" := by decide +kernel
  obtain ⟨⟨s', hs', hsame, -⟩, -⟩ := scan_printed hscan
  rw [hprinted] at hs'
  exact ⟨_, hscan, hprinted, s', hs', hsame⟩

end TokenStream

end BufferSchema
