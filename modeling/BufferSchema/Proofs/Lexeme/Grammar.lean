import BufferSchema.Lexeme
import BufferSchema.Proofs.Naming
import Mathlib.Data.List.TakeWhile

/-!
# The lexical grammar

Which characters make a lexeme depends on what stands behind them: names and digits go on as far as they can, a
line comment ends with its line, and a block comment ends with the first `*/` behind its opening. `Grammatical`
states these rules, and `Splits` cuts a whole text by them. There is one way to do so, and it is the way in which
`Lexeme.ofText` cuts.
-/

namespace BufferSchema.Lexeme

open Text (Position isBlank isNameStart isNamePart IsIdentifier isNamePart_of_isDigit isNamePart_eq_false_iff
  isNameStart_eq_false_of_isDigit isBlank_eq_false_of_isNamePart)

/-- The characters after a word do not go on with it. -/
def Ends (cs : List Char) : Prop := ∀ c, cs.head? = some c → isNamePart c = false

/-- The characters of a lexeme that has `rest` behind it. -/
inductive Grammatical : Kind → List Char → List Char → Prop where
  | identifier {cs rest : List Char} (h : IsIdentifier cs) (hrest : Ends rest) : Grammatical .identifier cs rest
  | int {cs rest : List Char} (hne : cs ≠ []) (h : ∀ c ∈ cs, c.isDigit = true)
      (hrest : ∀ c, rest.head? = some c → c.isDigit = false) : Grammatical .int cs rest
  | line {body rest : List Char} (h : '\n' ∉ body) (hrest : ∀ c, rest.head? = some c → c = '\n') :
      Grammatical .comment ('/' :: '/' :: body) rest
  | closed {body rest : List Char} (h : ¬ ['*', '/'] <:+: body) :
      Grammatical .comment ('/' :: '*' :: (body ++ ['*', '/'])) rest
  | unclosed {body : List Char} (h : ¬ ['*', '/'] <:+: body) : Grammatical .comment ('/' :: '*' :: body) []
  | mark {c : Char} {rest : List Char} (hblank : isBlank c = false) (hname : isNamePart c = false)
      (hopen : c = '/' → rest.head? ≠ some '/' ∧ rest.head? ≠ some '*') : Grammatical .mark [c] rest

/-- A text is cut into lexemes, with blanks between any two of them and at both ends. -/
inductive Splits : List Char → List (Kind × List Char) → Prop where
  | last {gap : List Char} (hgap : ∀ c ∈ gap, isBlank c = true) : Splits gap []
  | cons {gap cs rest : List Char} {kind : Kind} {pieces : List (Kind × List Char)}
      (hgap : ∀ c ∈ gap, isBlank c = true) (hcs : Grammatical kind cs rest) (hrest : Splits rest pieces) :
      Splits (gap ++ (cs ++ rest)) ((kind, cs) :: pieces)

/-! One lexeme after the other. -/

variable {p : Position} {c : Char} {cs rest : List Char}

theorem ofChars_eq_nil (h : cs.dropWhile isBlank = []) : ofChars p cs = [] := by
  rw [ofChars]
  split
  · rfl
  · next h' => simp [h] at h'

theorem ofChars_eq_cons (h : cs.dropWhile isBlank = c :: rest) :
    ofChars p cs =
      ⟨(Piece.ofChars c rest).kind, String.ofList (Piece.ofChars c rest).text,
          p.advance (cs.takeWhile isBlank)⟩ ::
        ofChars ((p.advance (cs.takeWhile isBlank)).advance (Piece.ofChars c rest).text)
          (Piece.ofChars c rest).rest := by
  rw [ofChars]
  split
  · next h' => simp [h] at h'
  · next h' =>
    obtain ⟨rfl, rfl⟩ := List.cons.inj (h.symm.trans h')
    rfl

theorem ofChars_nil (p : Position) : ofChars p [] = [] := ofChars_eq_nil rfl

theorem ofChars_blank (h : isBlank c = true) : ofChars p (c :: cs) = ofChars (p.next c) cs := by
  have hd : (c :: cs).dropWhile isBlank = cs.dropWhile isBlank := List.dropWhile_cons_of_pos h
  cases hcs : cs.dropWhile isBlank with
  | nil => rw [ofChars_eq_nil hcs, ofChars_eq_nil (hd.trans hcs)]
  | cons d rest =>
    rw [ofChars_eq_cons hcs, ofChars_eq_cons (hd.trans hcs), List.takeWhile_cons_of_pos h]
    rfl

theorem ofChars_piece (h : isBlank c = false) :
    ofChars p (c :: cs) =
      ⟨(Piece.ofChars c cs).kind, String.ofList (Piece.ofChars c cs).text, p⟩ ::
        ofChars (p.advance (Piece.ofChars c cs).text) (Piece.ofChars c cs).rest := by
  have hc : ¬ isBlank c = true := by simp [h]
  rw [ofChars_eq_cons (List.dropWhile_cons_of_neg hc), List.takeWhile_cons_of_neg hc]
  rfl

/-- Blanks move the place of what follows, and nothing else. -/
theorem ofChars_append_of_blank {gap : List Char} (h : ∀ c ∈ gap, isBlank c = true) (p : Position)
    (cs : List Char) : ofChars p (gap ++ cs) = ofChars (p.advance gap) cs := by
  induction gap generalizing p with
  | nil => rfl
  | cons c gap ih =>
    rw [List.cons_append, ofChars_blank (h c List.mem_cons_self), ih fun d hd => h d (List.mem_cons_of_mem c hd),
      Position.advance_cons]

/-! What `Piece.ofChars` takes off. -/

theorem takeWhile_append_of_stop {q : Char → Bool} {as bs : List Char} (has : ∀ c ∈ as, q c = true)
    (hbs : ∀ c, bs.head? = some c → q c = false) : (as ++ bs).takeWhile q = as := by
  rw [List.takeWhile_append_of_pos has]
  cases bs with
  | nil => simp
  | cons b bs => simp [hbs b rfl]

theorem dropWhile_append_of_stop {q : Char → Bool} {as bs : List Char} (has : ∀ c ∈ as, q c = true)
    (hbs : ∀ c, bs.head? = some c → q c = false) : (as ++ bs).dropWhile q = bs := by
  rw [List.dropWhile_append_of_pos has]
  cases bs with
  | nil => rfl
  | cons b bs => simp [hbs b rfl]

theorem stop_of_dropWhile {q : Char → Bool} {d : Char} (h : (cs.dropWhile q).head? = some d) : q d = false := by
  simpa [h] using List.head?_dropWhile_not q cs

theorem splitBlock_closed {body : List Char} (h : ¬ ['*', '/'] <:+: body) :
    splitBlock (body ++ '*' :: '/' :: cs) = (body ++ ['*', '/'], cs) := by
  induction body with
  | nil => simp [splitBlock]
  | cons c body ih =>
    have hbody : ¬ ['*', '/'] <:+: body := fun hi => h (hi.trans (List.suffix_cons c body).isInfix)
    have hc : ¬ (c = '*' ∧ (body ++ '*' :: '/' :: cs).head? = some '/') := by
      rintro ⟨rfl, hd⟩
      cases body with
      | nil => simp at hd
      | cons d body =>
        obtain rfl : d = '/' := by simpa using hd
        exact h ⟨[], body, rfl⟩
    rw [List.cons_append, splitBlock, if_neg hc, ih hbody]
    rfl

theorem splitBlock_unclosed {body : List Char} (h : ¬ ['*', '/'] <:+: body) : splitBlock body = (body, []) := by
  induction body with
  | nil => rfl
  | cons c body ih =>
    have hbody : ¬ ['*', '/'] <:+: body := fun hi => h (hi.trans (List.suffix_cons c body).isInfix)
    have hc : ¬ (c = '*' ∧ body.head? = some '/') := by
      rintro ⟨rfl, hd⟩
      obtain ⟨rest, rfl⟩ := List.head?_eq_some_iff.1 hd
      exact h ⟨[], rest, rfl⟩
    rw [splitBlock, if_neg hc, ih hbody]

/-- Either there is no end of the comment, or the first one is where the comment ends. -/
theorem splitBlock_cases (cs : List Char) :
    ¬ ['*', '/'] <:+: cs ∨ ∃ body rest, ¬ ['*', '/'] <:+: body ∧ cs = body ++ '*' :: '/' :: rest := by
  induction cs with
  | nil => exact .inl (by simp)
  | cons c cs ih =>
    by_cases hc : ['*', '/'] <+: c :: cs
    · obtain ⟨rest, hrest⟩ := hc
      exact .inr ⟨[], rest, by simp, hrest.symm⟩
    · rcases ih with hnone | ⟨body, rest, hbody, rfl⟩
      · exact .inl fun hi => (List.infix_cons_iff.1 hi).elim hc hnone
      · refine .inr ⟨c :: body, rest, fun hi => ?_, rfl⟩
        rcases List.infix_cons_iff.1 hi with hfront | hi
        · exact hc (hfront.trans (List.prefix_append (c :: body) _))
        · exact hbody hi

theorem Grammatical.exists_cons {kind : Kind} (h : Grammatical kind cs rest) :
    ∃ c ds, cs = c :: ds ∧ isBlank c = false := by
  cases h with
  | identifier h _ =>
    obtain ⟨c, ds, rfl⟩ := List.exists_cons_of_ne_nil h.ne_nil
    exact ⟨c, ds, rfl, isBlank_eq_false_of_isNamePart (h.isNamePart c List.mem_cons_self)⟩
  | int hne h _ =>
    obtain ⟨c, ds, rfl⟩ := List.exists_cons_of_ne_nil hne
    exact ⟨c, ds, rfl, isBlank_eq_false_of_isNamePart (isNamePart_of_isDigit (h c List.mem_cons_self))⟩
  | line | closed | unclosed => exact ⟨'/', _, rfl, by decide⟩
  | mark hblank _ _ => exact ⟨_, [], rfl, hblank⟩

/-- Characters that make a lexeme by the grammar are taken off as that lexeme. -/
theorem Piece.ofChars_of_grammatical {kind : Kind} (h : Grammatical kind (c :: cs) rest) :
    Piece.ofChars c (cs ++ rest) = ⟨kind, c :: cs, rest⟩ := by
  cases h with
  | identifier h hrest =>
    have htake := takeWhile_append_of_stop h.2 hrest
    have hdrop := dropWhile_append_of_stop h.2 hrest
    simp [Piece.ofChars, h.1, htake, hdrop]
  | int _ h hrest =>
    have hc := h c List.mem_cons_self
    have hcs : ∀ d ∈ cs, d.isDigit = true := fun d hd => h d (List.mem_cons_of_mem c hd)
    have htake := takeWhile_append_of_stop hcs hrest
    have hdrop := dropWhile_append_of_stop hcs hrest
    simp [Piece.ofChars, isNameStart_eq_false_of_isDigit hc, hc, htake, hdrop]
  | @line body _ h hrest =>
    have hbody : ∀ d ∈ '/' :: body, (d != '\n') = true := by
      intro d hd
      rcases List.mem_cons.1 hd with rfl | hd
      · decide
      · simpa using fun hn : d = '\n' => h (hn ▸ hd)
    have hstop : ∀ d, rest.head? = some d → (d != '\n') = false := by
      intro d hd
      simp [hrest d hd]
    have htake := takeWhile_append_of_stop hbody hstop
    have hdrop := dropWhile_append_of_stop hbody hstop
    unfold Piece.ofChars
    rw [if_neg (by decide), if_neg (by decide), if_pos ⟨rfl, rfl⟩, htake, hdrop]
  | @closed body _ h =>
    have hsplit : splitBlock (body ++ ['*', '/'] ++ rest) = (body ++ ['*', '/'], rest) := by
      rw [List.append_assoc]
      exact splitBlock_closed h
    unfold Piece.ofChars
    rw [if_neg (by decide), if_neg (by decide), if_neg (by simp), if_pos ⟨rfl, rfl⟩, List.cons_append, List.tail_cons,
      hsplit]
  | unclosed h =>
    unfold Piece.ofChars
    rw [if_neg (by decide), if_neg (by decide), if_neg (by simp), if_pos ⟨rfl, rfl⟩, List.append_nil, List.tail_cons,
      splitBlock_unclosed h]
  | mark _ hname hopen =>
    obtain ⟨hstart, hdigit⟩ := isNamePart_eq_false_iff.1 hname
    have hline : ¬ (c = '/' ∧ rest.head? = some '/') := fun h => (hopen h.1).1 h.2
    have hblock : ¬ (c = '/' ∧ rest.head? = some '*') := fun h => (hopen h.1).2 h.2
    unfold Piece.ofChars
    rw [if_neg (Bool.eq_false_iff.1 hstart), if_neg (Bool.eq_false_iff.1 hdigit)]
    exact (if_neg hline).trans (if_neg hblock)

/-- What is taken off is a lexeme by the grammar. -/
theorem Piece.grammatical_ofChars (h : isBlank c = false) :
    Grammatical (Piece.ofChars c cs).kind (Piece.ofChars c cs).text (Piece.ofChars c cs).rest := by
  unfold Piece.ofChars
  split
  · next hstart =>
    exact .identifier ⟨hstart, fun d hd => List.mem_takeWhile_imp hd⟩ fun d hd => stop_of_dropWhile hd
  · next hstart =>
    split
    · next hdigit =>
      refine .int (by simp) (List.forall_mem_cons.2 ⟨hdigit, fun d hd => List.mem_takeWhile_imp hd⟩) ?_
      exact fun d hd => stop_of_dropWhile hd
    · next hdigit =>
      have hname : isNamePart c = false :=
        isNamePart_eq_false_iff.2 ⟨Bool.eq_false_iff.2 hstart, Bool.eq_false_iff.2 hdigit⟩
      split
      · next hopen =>
        obtain ⟨rfl, hhead⟩ := hopen
        obtain ⟨ds, rfl⟩ := List.head?_eq_some_iff.1 hhead
        rw [List.takeWhile_cons_of_pos (by decide), List.dropWhile_cons_of_pos (by decide)]
        refine .line (fun hn => by simpa using List.mem_takeWhile_imp hn) fun d hd => ?_
        simpa using stop_of_dropWhile hd
      · next hline =>
        split
        · next hopen =>
          obtain ⟨rfl, hhead⟩ := hopen
          obtain ⟨ds, rfl⟩ := List.head?_eq_some_iff.1 hhead
          rw [List.tail_cons]
          rcases splitBlock_cases ds with hnone | ⟨body, rest, hbody, rfl⟩
          · rw [splitBlock_unclosed hnone]
            exact .unclosed hnone
          · rw [splitBlock_closed hbody]
            exact .closed hbody
        · next hblock =>
          exact .mark h hname fun hc => ⟨fun hh => hline ⟨hc, hh⟩, fun hh => hblock ⟨hc, hh⟩⟩

/-! Whole texts. -/

/-- The kind and the characters of a lexeme, without its place. -/
def spelled (l : Lexeme) : Kind × List Char := (l.kind, l.text.toList)

theorem splits_ofChars (p : Position) (cs : List Char) : Splits cs ((ofChars p cs).map spelled) := by
  fun_induction ofChars p cs with
  | case1 p cs hcs => exact .last (List.dropWhile_eq_nil_iff.1 hcs)
  | case2 p cs c rest hcs here piece ih =>
    have hblank : isBlank c = false := stop_of_dropWhile (by rw [hcs]; rfl)
    have hgap : ∀ d ∈ cs.takeWhile isBlank, isBlank d = true := fun d hd => List.mem_takeWhile_imp hd
    have htext : cs = cs.takeWhile isBlank ++ (piece.text ++ piece.rest) := by
      rw [Piece.text_append_rest, ← hcs, List.takeWhile_append_dropWhile]
    have hsplits := Splits.cons hgap (Piece.grammatical_ofChars hblank) ih
    rw [← htext] at hsplits
    simpa [spelled] using hsplits

theorem map_spelled_of_splits {pieces : List (Kind × List Char)} (h : Splits cs pieces) (p : Position) :
    (ofChars p cs).map spelled = pieces := by
  induction h generalizing p with
  | last hgap => rw [ofChars_eq_nil (List.dropWhile_eq_nil_iff.2 hgap)]; rfl
  | @cons gap cs rest kind pieces hgap hcs _ ih =>
    obtain ⟨c, ds, rfl, hblank⟩ := hcs.exists_cons
    rw [ofChars_append_of_blank hgap, List.cons_append, ofChars_piece hblank, Piece.ofChars_of_grammatical hcs,
      List.map_cons, ih]
    simp [spelled]

/-- There is one way to cut a text into lexemes by the grammar, and it is the one in which the text is cut. -/
theorem splits_iff (source : String) (pieces : List (Kind × List Char)) :
    Splits source.toList pieces ↔ pieces = (ofText source).map spelled :=
  ⟨fun h => (map_spelled_of_splits h .start).symm, fun h => h ▸ splits_ofChars .start source.toList⟩

end BufferSchema.Lexeme
