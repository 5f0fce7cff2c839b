import BufferSchema.Lexeme.Scanner
import BufferSchema.Proofs.Lexeme.Grammar
import BufferSchema.Proofs.Text.Position

/-!
# The scanner loses nothing

The cursors of a scanner stay in step: the bytes it has counted are those of the characters it has gone over, so
that every slice it takes exists and holds just these characters. It therefore finds the lexemes of the text, which
together with the blanks between them make up the text, each at the place that its line and column say.
-/

namespace BufferSchema

namespace Text

/-- An offset is valid exactly at the end of some front part of the text. -/
theorem isValid_iff {source : String} {n : Nat} : String.Pos.Raw.isValid source ⟨n⟩ = true ↔
    ∃ front rest : List Char, source.toList = front ++ rest ∧ n = String.utf8Len front := by
  rw [String.Pos.Raw.isValid_eq_true_iff, String.Pos.Raw.isValid_iff_exists_append]
  constructor
  · rintro ⟨front, rest, rfl, h⟩
    refine ⟨front.toList, rest.toList, String.toList_append, ?_⟩
    rw [← String.utf8ByteSize_ofList, String.ofList_toList]
    exact congrArg String.Pos.Raw.byteIdx h
  · rintro ⟨front, rest, h, rfl⟩
    refine ⟨String.ofList front, String.ofList rest, ?_, ?_⟩
    · rw [← String.ofList_append, ← h, String.ofList_toList]
    · rw [← String.utf8ByteSize_ofList]
      rfl

/-- Of two front parts of a text, the one with no more bytes begins the other. -/
theorem exists_append_of_utf8Len_le {front behind upto rest : List Char} (h : front ++ behind = upto ++ rest)
    (hle : String.utf8Len front ≤ String.utf8Len upto) : ∃ text, upto = front ++ text := by
  rcases List.append_eq_append_iff.1 h with ⟨text, hupto, _⟩ | ⟨more, rfl, _⟩
  · exact ⟨text, hupto⟩
  · have hmore : String.utf8Len more = 0 := by
      rw [String.utf8Len_append] at hle
      omega
    obtain rfl := String.utf8Len_eq_zero.1 hmore
    exact ⟨[], by rw [List.append_nil, List.append_nil]⟩

/-- The slices of a text are its middles, with bounds that count the bytes in front of them and in them. -/
theorem slice?_eq_some_iff {source text : String} {start stop : Nat} :
    slice? source start stop = some text ↔ ∃ front rest : List Char, source.toList = front ++ text.toList ++ rest ∧
      start = String.utf8Len front ∧ stop = start + String.utf8Len text.toList := by
  have hextract (front text rest : List Char) (h : source.toList = front ++ text ++ rest) :
      String.Pos.Raw.extract source ⟨String.utf8Len front⟩ ⟨String.utf8Len front + String.utf8Len text⟩ =
        String.ofList text := by
    rw [← String.extract_of_valid front text rest, ← h, String.ofList_toList]
  unfold slice?
  constructor
  · intro h
    split at h
    · next hvalid =>
      obtain ⟨hstart, hstop, hle⟩ := hvalid
      obtain ⟨front, behind, hfront, rfl⟩ := isValid_iff.1 hstart
      obtain ⟨upto, rest, hupto, rfl⟩ := isValid_iff.1 hstop
      obtain ⟨middle, rfl⟩ := exists_append_of_utf8Len_le (hfront.symm.trans hupto) hle
      rw [String.utf8Len_append, hextract front middle rest hupto, Option.some.injEq] at h
      refine ⟨front, rest, ?_, rfl, ?_⟩
      · rw [hupto, ← h, String.toList_ofList]
      · rw [String.utf8Len_append, ← h, String.toList_ofList]
    · cases h
  · rintro ⟨front, rest, h, rfl, rfl⟩
    have hstart : String.Pos.Raw.isValid source ⟨String.utf8Len front⟩ = true :=
      isValid_iff.2 ⟨front, text.toList ++ rest, by rw [h, List.append_assoc], rfl⟩
    have hstop : String.Pos.Raw.isValid source ⟨String.utf8Len front + String.utf8Len text.toList⟩ = true :=
      isValid_iff.2 ⟨front ++ text.toList, rest, h, (String.utf8Len_append _ _).symm⟩
    rw [if_pos ⟨hstart, hstop, Nat.le_add_right _ _⟩, hextract front text.toList rest h, String.ofList_toList]

end Text

namespace Scanner

open Text (Position isBlank isNameStart isNamePart isNamePart_of_isNameStart)
open Lexeme (Piece splitBlock)

section Equations

variable {s : Scanner} {c : Char} {rest : List Char} {accept : Char → Bool}

theorem advanceWhile_of_nil (h : s.rest = []) : s.advanceWhile accept = s := by
  rw [advanceWhile]
  split
  · rfl
  · next h' => rw [h] at h'; cases h'

theorem advanceWhile_of_cons (h : s.rest = c :: rest) :
    s.advanceWhile accept = if accept c then s.advance.advanceWhile accept else s := by
  rw [advanceWhile]
  split
  · next h' => rw [h] at h'; cases h'
  · next h' =>
    obtain ⟨rfl, rfl⟩ := List.cons.inj (h.symm.trans h')
    rfl

theorem advanceBlock_of_nil (h : s.rest = []) : s.advanceBlock = s := by
  rw [advanceBlock]
  split
  · rfl
  · next h' => rw [h] at h'; cases h'

theorem advanceBlock_of_cons (h : s.rest = c :: rest) :
    s.advanceBlock =
      if c = '*' ∧ s.advance.rest.head? = some '/' then s.advance.advance else s.advance.advanceBlock := by
  rw [advanceBlock]
  split
  · next h' => rw [h] at h'; cases h'
  · next h' =>
    obtain ⟨rfl, rfl⟩ := List.cons.inj (h.symm.trans h')
    rfl

end Equations

/-- The scanner that has gone over the characters `front` and has the characters `rest` left. -/
def between (front rest : List Char) : Scanner :=
  ⟨String.ofList (front ++ rest), rest, String.utf8Len front, Position.start.advance front⟩

@[simp] theorem rest_between (front rest : List Char) : (between front rest).rest = rest := rfl

@[simp] theorem offset_between (front rest : List Char) :
    (between front rest).offset = String.utf8Len front := rfl

@[simp] theorem position_between (front rest : List Char) :
    (between front rest).position = Position.start.advance front := rfl

theorem start_eq_between (source : String) : start source = between [] source.toList := by
  simp [start, between, String.utf8Len]

/-! Each step keeps the cursors together. -/

/-- Moving the cursor takes one character from what is left to what is behind. -/
theorem advance_between (front : List Char) (c : Char) (rest : List Char) :
    (between front (c :: rest)).advance = between (front ++ [c]) rest := by
  simp [advance, between, String.utf8Len_append, String.utf8Len, Position.advance_append]

theorem advanceWhile_between (accept : Char → Bool) (front rest : List Char) :
    (between front rest).advanceWhile accept =
      between (front ++ rest.takeWhile accept) (rest.dropWhile accept) := by
  induction rest generalizing front with
  | nil => rw [advanceWhile_of_nil rfl, List.takeWhile_nil, List.append_nil, List.dropWhile_nil]
  | cons c rest ih =>
    rw [advanceWhile_of_cons rfl, advance_between, ih, List.takeWhile_cons, List.dropWhile_cons]
    split
    · rw [List.append_assoc, List.singleton_append]
    · rw [List.append_nil]

theorem advanceBlock_between (front rest : List Char) :
    (between front rest).advanceBlock = between (front ++ (splitBlock rest).1) (splitBlock rest).2 := by
  induction rest generalizing front with
  | nil => rw [advanceBlock_of_nil rfl, splitBlock, List.append_nil]
  | cons c rest ih =>
    rw [advanceBlock_of_cons rfl, advance_between, ih, splitBlock, rest_between]
    split
    · next h =>
      obtain ⟨rfl, hslash⟩ := h
      obtain ⟨ds, rfl⟩ := List.head?_eq_some_iff.1 hslash
      rw [advance_between, List.tail_cons, List.append_assoc]
      rfl
    · rw [List.append_assoc, List.singleton_append]

/-- A slice that ends at the cursor is the text that has been moved over. -/
theorem slice_between (front text rest : List Char) :
    (between front (text ++ rest)).slice (String.utf8Len front) (String.utf8Len (front ++ text)) =
      .ok (String.ofList text) := by
  have hslice : Text.slice? (String.ofList (front ++ (text ++ rest))) (String.utf8Len front)
      (String.utf8Len (front ++ text)) = some (String.ofList text) :=
    Text.slice?_eq_some_iff.2 ⟨front, rest, by simp, rfl, by simp [String.utf8Len_append]⟩
  rw [slice, between, hslice]

theorem peekSecond_between (front rest : List Char) : (between front rest).peekSecond = .ok rest[1]? := by
  have hslice := slice_between front rest []
  rw [List.append_nil] at hslice
  have hsize : (between front rest).source.utf8ByteSize = String.utf8Len (front ++ rest) :=
    String.utf8ByteSize_ofList _
  rw [peekSecond, offset_between, hsize, hslice]
  simp [bind, Except.bind, pure, Except.pure]

theorem advanceComment_line (front cs : List Char) :
    (between front ('/' :: '/' :: cs)).advanceComment =
      between (front ++ '/' :: '/' :: cs.takeWhile (· != '\n')) (cs.dropWhile (· != '\n')) := by
  rw [advanceComment, advance_between, rest_between, List.head?_cons, if_pos rfl, advance_between, advanceWhile_between,
    List.append_assoc, List.append_assoc]
  rfl

theorem advanceComment_block (front cs : List Char) :
    (between front ('/' :: '*' :: cs)).advanceComment =
      between (front ++ '/' :: '*' :: (splitBlock cs).1) (splitBlock cs).2 := by
  rw [advanceComment, advance_between, if_neg (by simp), advance_between, advanceBlock_between, List.append_assoc,
    List.append_assoc]
  rfl

/-- Moving over a lexeme takes off the first piece of what is left. -/
theorem advanceLexeme_between (front : List Char) (c : Char) (cs : List Char) :
    (between front (c :: cs)).advanceLexeme c =
      .ok ((Piece.ofChars c cs).kind, between (front ++ (Piece.ofChars c cs).text) (Piece.ofChars c cs).rest) := by
  unfold advanceLexeme Piece.ofChars
  split
  · next hc =>
    rw [advanceWhile_between, List.takeWhile_cons_of_pos (isNamePart_of_isNameStart hc),
      List.dropWhile_cons_of_pos (isNamePart_of_isNameStart hc)]
  · split
    · next hc => rw [advanceWhile_between, List.takeWhile_cons_of_pos hc, List.dropWhile_cons_of_pos hc]
    · split
      · next hc =>
        subst hc
        rw [peekSecond_between]
        by_cases hline : cs.head? = some '/'
        · obtain ⟨ds, rfl⟩ := List.head?_eq_some_iff.1 hline
          rw [if_pos ⟨rfl, rfl⟩, List.takeWhile_cons_of_pos (by decide), List.dropWhile_cons_of_pos (by decide)]
          simp [bind, Except.bind, pure, Except.pure, advanceComment_line]
        · by_cases hblock : cs.head? = some '*'
          · obtain ⟨ds, rfl⟩ := List.head?_eq_some_iff.1 hblock
            simp [bind, Except.bind, pure, Except.pure, advanceComment_block]
          · have hsecond : ¬ (('/' :: cs)[1]? = some '/' ∨ ('/' :: cs)[1]? = some '*') := by
              simp_all [List.head?_eq_getElem?]
            simp only [bind, Except.bind, hsecond, if_false, pure, Except.pure, advance_between]
            rw [if_neg fun h => hline h.2, if_neg fun h => hblock h.2]
      · next hc => rw [if_neg fun h => hc h.1, if_neg fun h => hc h.1, advance_between]

theorem take_between (front : List Char) (c : Char) (cs : List Char) :
    (between front (c :: cs)).take = .ok (some
      (⟨(Piece.ofChars c cs).kind, String.ofList (Piece.ofChars c cs).text, Position.start.advance front⟩,
        between (front ++ (Piece.ofChars c cs).text) (Piece.ofChars c cs).rest)) := by
  have hslice := slice_between front (Piece.ofChars c cs).text (Piece.ofChars c cs).rest
  rw [Piece.text_append_rest] at hslice
  simp only [take, rest_between, advanceLexeme_between, bind, Except.bind, offset_between, hslice, position_between,
    pure, Except.pure]

theorem next_of_blank {front rest : List Char} (h : rest.dropWhile isBlank = []) :
    (between front rest).next = .ok none := by
  rw [next, advanceWhile_between, h]
  rfl

/-- The next lexeme is the first piece behind the blanks, at its place. -/
theorem next_of_lexeme (front : List Char) {rest cs : List Char} {c : Char} (h : rest.dropWhile isBlank = c :: cs) :
    (between front rest).next = .ok (some
      (⟨(Piece.ofChars c cs).kind, String.ofList (Piece.ofChars c cs).text,
          Position.start.advance (front ++ rest.takeWhile isBlank)⟩,
        between (front ++ rest.takeWhile isBlank ++ (Piece.ofChars c cs).text) (Piece.ofChars c cs).rest)) := by
  rw [next, advanceWhile_between, h, take_between]

theorem lexemes_of_end {s : Scanner} (h : s.next = .ok none) : s.lexemes = .ok [] := by
  rw [lexemes]
  split <;> simp_all

theorem lexemes_of_next {s behind : Scanner} {l : Lexeme} {ls : List Lexeme} (h : s.next = .ok (some (l, behind)))
    (hbehind : behind.lexemes = .ok ls) : s.lexemes = .ok (l :: ls) := by
  rw [lexemes]
  split
  · simp_all
  · simp_all
  · next l' behind' h' =>
    obtain ⟨rfl, rfl⟩ : l' = l ∧ behind' = behind := by simpa [h] using h'.symm
    rw [hbehind]
    rfl

/-- A scanner whose cursors are together finds what there is to find. -/
theorem lexemes_between (front rest : List Char) :
    (between front rest).lexemes = .ok (Lexeme.ofChars (Position.start.advance front) rest) := by
  generalize hp : Position.start.advance front = p
  fun_induction Lexeme.ofChars p rest generalizing front with
  | case1 p cs h => exact lexemes_of_end (next_of_blank h)
  | case2 p cs c rest h here piece ih =>
    have hhere : Position.start.advance (front ++ cs.takeWhile isBlank) = here := by
      rw [Position.advance_append, hp]
    have hbehind := ih (front ++ cs.takeWhile isBlank ++ piece.text) (by rw [Position.advance_append, hhere])
    have hnext := next_of_lexeme front h
    rw [hhere] at hnext
    exact lexemes_of_next hnext hbehind

/-! The lexemes and the text. -/

/-- But for blanks between them, the lexemes make up the characters `cs`, which stand behind `front`. Each of them
starts with a character that is no blank, and has the place at which this character stands. -/
inductive Covers : List Char → List Char → List Lexeme → Prop where
  | last {front gap : List Char} (hgap : ∀ c ∈ gap, isBlank c = true) : Covers front gap []
  | cons {front gap cs rest : List Char} {c : Char} {l : Lexeme} {ls : List Lexeme}
      (hgap : ∀ c ∈ gap, isBlank c = true) (hblank : isBlank c = false) (htext : l.text.toList = c :: cs)
      (hposition : l.position = .behind (front ++ gap))
      (hrest : Covers (front ++ gap ++ l.text.toList) rest ls) :
      Covers front (gap ++ (l.text.toList ++ rest)) (l :: ls)

theorem covers_ofChars (front rest : List Char) :
    Covers front rest (Lexeme.ofChars (Position.start.advance front) rest) := by
  generalize hp : Position.start.advance front = p
  fun_induction Lexeme.ofChars p rest generalizing front with
  | case1 p cs h => exact .last (List.dropWhile_eq_nil_iff.1 h)
  | case2 p cs c rest h here piece ih =>
    have hblank : isBlank c = false := Lexeme.stop_of_dropWhile (by rw [h]; rfl)
    have hgap : ∀ d ∈ cs.takeWhile isBlank, isBlank d = true := fun d hd => List.mem_takeWhile_imp hd
    have hpiece : Lexeme.Grammatical piece.kind piece.text piece.rest := Piece.grammatical_ofChars hblank
    obtain ⟨d, ds, hd, hdblank⟩ := hpiece.exists_cons
    have hcs : cs = cs.takeWhile isBlank ++ (piece.text ++ piece.rest) := by
      rw [Piece.text_append_rest, ← h, List.takeWhile_append_dropWhile]
    have hhere : Position.start.advance (front ++ cs.takeWhile isBlank) = here := by
      rw [Position.advance_append, hp]
    have hrest := ih (front ++ cs.takeWhile isBlank ++ piece.text) (by rw [Position.advance_append, hhere])
    have hcovers := Covers.cons (l := ⟨piece.kind, String.ofList piece.text, here⟩) hgap hdblank
      (String.toList_ofList.trans hd) (by rw [← hhere, Position.advance_start]) (by rwa [String.toList_ofList])
    rwa [String.toList_ofList, ← hcs] at hcovers

/-- Each lexeme stands somewhere behind `front`, and before all that follow it. -/
theorem Covers.places {front cs : List Char} {ls : List Lexeme} (h : Covers front cs ls) :
    (∀ l ∈ ls, ∃ more, l.position = .behind (front ++ more)) ∧
      ls.Pairwise fun l m => l.position.Before m.position := by
  induction h with
  | last => exact ⟨by simp, .nil⟩
  | @cons front gap cs rest c l ls hgap hblank htext hposition _ ih =>
    obtain ⟨hplaces, hpairs⟩ := ih
    refine ⟨?_, List.pairwise_cons.2 ⟨fun m hm => ?_, hpairs⟩⟩
    · intro m hm
      rcases List.mem_cons.1 hm with rfl | hm
      · exact ⟨gap, hposition⟩
      · obtain ⟨more, hmore⟩ := hplaces m hm
        exact ⟨gap ++ l.text.toList ++ more, by rw [hmore]; simp⟩
    · obtain ⟨more, hmore⟩ := hplaces m hm
      rw [hposition, hmore, List.append_assoc]
      exact Position.behind_before (front ++ gap) (by simp [htext])

/-- A scanner in front of any text comes to its end without a slice that does not exist. The lexemes it finds and
the blanks between them are the text, and they stand one behind the other. -/
theorem lexemes_start (source : String) :
    (start source).lexemes = .ok (Lexeme.ofText source) ∧ Covers [] source.toList (Lexeme.ofText source) ∧
      (Lexeme.ofText source).Pairwise fun l m => l.position.Before m.position := by
  have hcovers : Covers [] source.toList (Lexeme.ofText source) := covers_ofChars [] source.toList
  refine ⟨?_, hcovers, hcovers.places.2⟩
  rw [start_eq_between]
  exact lexemes_between [] source.toList

end Scanner

end BufferSchema
