import BufferSchema.Proofs.Lexeme.Grammar

/-!
# Words and the gaps between them

A text that is laid out as words with gaps between them is cut into exactly these words. A gap is
any mix of blanks, block comments that are closed and line comments that end with their line; a
word is what a single lexeme that is no comment can be made of.
-/

namespace BufferSchema.Lexeme

open Text (Position isBlank isNameStart isNamePart IsIdentifier isNamePart_eq_false_iff isNamePart_eq_false_of_isBlank
  isNamePart_of_isDigit)

/-- What may stand between two words. -/
inductive Gap : List Char → Prop where
  | nil : Gap []
  | blank {c : Char} {cs : List Char} (h : isBlank c = true) (rest : Gap cs) : Gap (c :: cs)
  | line {body cs : List Char} (h : '\n' ∉ body) (rest : Gap cs) :
      Gap ('/' :: '/' :: (body ++ '\n' :: cs))
  | block {body cs : List Char} (h : ¬ ['*', '/'] <:+: body) (rest : Gap cs) :
      Gap ('/' :: '*' :: (body ++ '*' :: '/' :: cs))

/-- The characters of a lexeme that is no comment. -/
inductive Word : Kind → List Char → Prop where
  | identifier {cs : List Char} (h : IsIdentifier cs) : Word .identifier cs
  | int {cs : List Char} (hne : cs ≠ []) (h : ∀ c ∈ cs, c.isDigit = true) : Word .int cs
  | mark {c : Char} (hblank : isBlank c = false) (hstart : isNameStart c = false)
      (hdigit : c.isDigit = false) : Word .mark [c]

/-- The words with a gap between any two of them and one at the end, which may be empty. -/
inductive LaidOut : List String → List Char → Prop where
  | last {w : String} {gap : List Char} (hgap : Gap gap) : LaidOut [w] (w.toList ++ gap)
  | cons {w : String} {ws : List String} {gap cs : List Char} (hgap : Gap gap) (hne : gap ≠ [])
      (rest : LaidOut ws cs) : LaidOut (w :: ws) (w.toList ++ (gap ++ cs))

/-- The words with one blank between any two of them. -/
def spaced : List String → List Char
  | [] => []
  | [w] => w.toList
  | w :: w' :: ws => w.toList ++ ' ' :: spaced (w' :: ws)

theorem laidOut_spaced (w : String) (ws : List String) : LaidOut (w :: ws) (spaced (w :: ws)) := by
  induction ws generalizing w with
  | nil =>
    have h : LaidOut [w] (w.toList ++ []) := .last .nil
    rwa [List.append_nil] at h
  | cons w' ws ih => exact .cons (.blank rfl .nil) (by simp) (ih w')

/-- The lexemes of the characters `cs` that are no comments. -/
def words (p : Position) (cs : List Char) : List Lexeme :=
  (ofChars p cs).filter (·.kind != .comment)

/-- What the lexemes of a text say, without the comments. -/
def texts (source : String) : List String := (words .start source.toList).map (·.text)

/-! What `Piece.ofChars` takes off each kind of lexeme. -/

theorem Ends.of_gap {gap : List Char} (hgap : Gap gap) (hne : gap ≠ []) (cs : List Char) :
    Ends (gap ++ cs) := by
  intro c hc
  cases hgap with
  | nil => exact absurd rfl hne
  | blank h _ =>
    simp only [List.cons_append, List.head?_cons, Option.some.injEq] at hc
    rw [← hc]
    exact isNamePart_eq_false_of_isBlank h
  | line _ _ =>
    obtain rfl : '/' = c := by simpa using hc
    decide
  | block _ _ =>
    obtain rfl : '/' = c := by simpa using hc
    decide

theorem Word.grammatical {k : Kind} {cs rest : List Char} (h : Word k cs) (hslash : cs ≠ ['/']) (hrest : Ends rest) :
    Grammatical k cs rest := by
  cases h with
  | identifier h => exact .identifier h hrest
  | int hne h =>
    refine .int hne h fun d hd => ?_
    cases hdig : d.isDigit with
    | false => rfl
    | true => exact absurd (isNamePart_of_isDigit hdig) (by simp [hrest d hd])
  | mark hblank hstart hdigit =>
    exact .mark hblank (isNamePart_eq_false_iff.2 ⟨hstart, hdigit⟩) fun hc => absurd (by rw [hc]) hslash

theorem Grammatical.word {k : Kind} {cs rest : List Char} (h : Grammatical k cs rest) (hk : k ≠ .comment) :
    Word k cs := by
  cases h with
  | identifier h _ => exact .identifier h
  | int hne h _ => exact .int hne h
  | line | closed | unclosed => exact absurd rfl hk
  | mark hblank hname _ => exact .mark hblank (isNamePart_eq_false_iff.1 hname).1 (isNamePart_eq_false_iff.1 hname).2

theorem Piece.ofChars_line {body cs : List Char} (h : '\n' ∉ body) :
    Piece.ofChars '/' ('/' :: (body ++ '\n' :: cs)) = ⟨.comment, '/' :: '/' :: body, '\n' :: cs⟩ :=
  Piece.ofChars_of_grammatical (.line h (by simp))

theorem Piece.ofChars_block {body cs : List Char} (h : ¬ ['*', '/'] <:+: body) :
    Piece.ofChars '/' ('*' :: (body ++ '*' :: '/' :: cs)) =
      ⟨.comment, '/' :: '*' :: (body ++ ['*', '/']), cs⟩ := by
  have hclosed : Grammatical .comment ('/' :: '*' :: (body ++ ['*', '/'])) cs := .closed h
  simpa using Piece.ofChars_of_grammatical hclosed

/-! From one lexeme to the words of a text. -/

theorem words_nil (p : Position) : words p [] = [] := by
  rw [words, ofChars_nil]
  rfl

theorem words_blank {p : Position} {c : Char} {cs : List Char} (h : isBlank c = true) :
    words p (c :: cs) = words (p.next c) cs := by
  rw [words, ofChars_blank h, words]

/-- A gap moves the place of what follows, and nothing else. -/
theorem words_gap {gap : List Char} (h : Gap gap) (p : Position) (cs : List Char) :
    words p (gap ++ cs) = words (p.advance gap) cs := by
  induction h generalizing p with
  | nil => rfl
  | blank hc _ ih => rw [List.cons_append, words_blank hc, ih, Position.advance_cons]
  | @line body gap hbody _ ih =>
    have happ : '/' :: '/' :: (body ++ '\n' :: gap) ++ cs = '/' :: '/' :: (body ++ '\n' :: (gap ++ cs)) := by
      simp
    rw [happ, words, ofChars_piece (by decide), Piece.ofChars_line hbody]
    simp only [List.filter_cons]
    rw [if_neg (by decide), ← words, words_blank (by decide), ih]
    simp [Position.advance_append]
  | @block body gap hbody _ ih =>
    have happ : '/' :: '*' :: (body ++ '*' :: '/' :: gap) ++ cs =
        '/' :: '*' :: (body ++ '*' :: '/' :: (gap ++ cs)) := by
      simp
    rw [happ, words, ofChars_piece (by decide), Piece.ofChars_block hbody]
    simp only [List.filter_cons]
    rw [if_neg (by decide), ← words, ih]
    simp [Position.advance_append]

theorem words_word {p : Position} {k : Kind} {w rest : List Char} (h : Word k w) (hslash : w ≠ ['/'])
    (hrest : Ends rest) : words p (w ++ rest) = ⟨k, String.ofList w, p⟩ :: words (p.advance w) rest := by
  have hkind : k ≠ .comment := by cases h <;> simp
  have hw := h.grammatical hslash hrest
  obtain ⟨c, cs, rfl, hblank⟩ := hw.exists_cons
  rw [words, List.cons_append, ofChars_piece hblank, Piece.ofChars_of_grammatical hw, List.filter_cons,
    if_pos (by simpa using hkind), ← words]

/-- A text laid out as words is cut into these words. -/
theorem text_words_of_laidOut {p : Position} {ws : List String} {cs : List Char} (h : LaidOut ws cs)
    (hws : ∀ w ∈ ws, w.toList ≠ ['/'] ∧ ∃ k, Word k w.toList) : (words p cs).map (·.text) = ws := by
  induction h generalizing p with
  | @last w gap hgap =>
    obtain ⟨hslash, k, hw⟩ := hws w List.mem_cons_self
    have hends : Ends gap := by
      cases gap with
      | nil => simp [Ends]
      | cons c gap => simpa using Ends.of_gap hgap (by simp) []
    have hgap' := words_gap hgap (p.advance w.toList) []
    rw [List.append_nil, words_nil] at hgap'
    rw [words_word hw hslash hends, hgap']
    simp
  | @cons w ws gap cs hgap hne _ ih =>
    obtain ⟨hslash, k, hw⟩ := hws w List.mem_cons_self
    rw [words_word hw hslash (Ends.of_gap hgap hne _), words_gap hgap, List.map_cons,
      ih fun v hv => hws v (List.mem_cons_of_mem w hv)]
    simp

theorem word_of_mem_ofChars {p : Position} {cs : List Char} :
    ∀ l ∈ ofChars p cs, l.kind ≠ .comment → Word l.kind l.text.toList := by
  fun_induction ofChars p cs with
  | case1 => simp
  | case2 p cs c rest hcs here piece ih =>
    intro l hl hkind
    rcases List.mem_cons.1 hl with rfl | hl
    · have hblank : isBlank c = false := by
        simpa [hcs] using List.head?_dropWhile_not isBlank cs
      rw [String.toList_ofList]
      exact (Piece.grammatical_ofChars hblank).word hkind
    · exact ih l hl hkind

/-- What each lexeme that is no comment is made of. -/
theorem word_of_mem_words {p : Position} {cs : List Char} {l : Lexeme} (h : l ∈ words p cs) :
    Word l.kind l.text.toList := by
  obtain ⟨hl, hkind⟩ := List.mem_filter.1 h
  exact word_of_mem_ofChars l hl (by simpa using hkind)

end BufferSchema.Lexeme
