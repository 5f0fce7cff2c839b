import BufferSchema.Proofs.Lexeme.Scanner
import BufferSchema.Proofs.Token.Indexed

/-!
# Where tokens stand

The place that a token has is where its text stands in the source: behind the characters in front of it, counted in
lines and columns, the text goes on with just the characters of the token. The tokens of a text and their places are
those of its lexemes, each before all that follow it, so that what is said of a place in the middle of a parse can be
said of the text.
-/

namespace BufferSchema

open Text (Position)

/-- The texts and places of the lexemes that are no comments. -/
def Lexeme.placed (source : String) : List (String × Position) :=
  (words .start source.toList).map fun l => (l.text, l.position)

/-- The lexeme `w` of the text stands at `p`: the line and column are those of a place in the text, and from there the
text goes on with the characters of `w`. -/
structure StandsAt (source w : String) (p : Position) : Prop where
  placed : (w, p) ∈ Lexeme.placed source
  inText : ∃ front rest, source.toList = front ++ rest ∧ p = .behind front
  begins : ∀ front rest, source.toList = front ++ rest → p = .behind front → w.toList <+: rest

/-- What was found at `p` is `w`: a lexeme of the text, or its end. -/
def Found (source w : String) (p : Position) : Prop := StandsAt source w p ∨ w = "EOF" ∧ p = .endOfInput

/-- A struct with a given name starts at `p`, where there is a keyword with the name right behind it. -/
structure StructAt (source name : String) (p : Position) : Prop where
  keyword : StandsAt source "struct" p
  name : ∃ q, [("struct", p), (name, q)] <:+: Lexeme.placed source

/-! Lexemes and the characters of the text. -/

/-- Each lexeme is found in the text at the place that it has. -/
theorem Scanner.Covers.characters {front cs : List Char} {ls : List Lexeme} (h : Covers front cs ls) :
    ∀ l ∈ ls, ∃ before rest, front ++ cs = before ++ (l.text.toList ++ rest) ∧ l.position = .behind before := by
  induction h with
  | last => exact nofun
  | @cons front gap _ rest _ l ls _ _ _ hposition _ ih =>
    intro m hm
    rcases List.mem_cons.1 hm with rfl | hm
    · exact ⟨front ++ gap, rest, by rw [List.append_assoc], hposition⟩
    · obtain ⟨before, behind, htext, hplace⟩ := ih m hm
      refine ⟨before, behind, ?_, hplace⟩
      rw [← htext]
      simp only [List.append_assoc]

theorem StandsAt.of_mem {source w : String} {p : Position} (h : (w, p) ∈ Lexeme.placed source) :
    StandsAt source w p := by
  obtain ⟨l, hl, heq⟩ := List.mem_map.1 h
  obtain ⟨rfl, rfl⟩ := Prod.mk.inj heq
  have hcovers : Scanner.Covers [] source.toList (Lexeme.ofText source) := Scanner.covers_ofChars [] source.toList
  obtain ⟨before, behind, hsource, hplace⟩ := hcovers.characters l (List.mem_filter.1 hl).1
  rw [List.nil_append] at hsource
  refine ⟨h, ⟨before, _, hsource, hplace⟩, fun front rest hsource' hplace' => ?_⟩
  -- A line and a column are those of one place only, so there is one way to cut the text at `p`.
  obtain rfl : before = front := Position.eq_of_behind_eq (hsource.symm.trans hsource') (hplace.symm.trans hplace')
  rw [← List.append_cancel_left (hsource.symm.trans hsource')]
  exact List.prefix_append _ _

/-- Each lexeme stands before all that follow it. -/
theorem Lexeme.pairwise_placed (source : String) : (placed source).Pairwise fun a b => a.2.Before b.2 := by
  have hcovers : Scanner.Covers [] source.toList (ofText source) := Scanner.covers_ofChars [] source.toList
  rw [placed, List.pairwise_map]
  exact hcovers.places.2.sublist List.filter_sublist

/-! The tokens that are left at some point of a parse. -/

/-- The tokens `ts` are the last ones of the text. None of them stands for its end. -/
structure Located (source : String) (ts : List Token) : Prop where
  placed : ts.map (fun t => (t.lexeme, t.position)) <:+ Lexeme.placed source
  real : ∀ t ∈ ts, t.kind ≠ .endOfInput

namespace Located

variable {source : String} {t : Token} {ts us : List Token}

theorem suffix (h : Located source ts) (hus : us <:+ ts) : Located source us where
  placed := (hus.map _).trans h.placed
  real := fun t ht => h.real t (hus.mem ht)

theorem tail (h : Located source ts) : Located source ts.tail := h.suffix (List.tail_suffix ts)

theorem standsAt (h : Located source ts) (ht : t ∈ ts) : StandsAt source t.lexeme t.position :=
  .of_mem (h.placed.mem (List.mem_map.2 ⟨t, ht, rfl⟩))

theorem isSpelled_iff (h : Located source ts) (ht : t ∈ ts) {w : String} :
    t.isSpelled w = true ↔ t.lexeme = w := by
  rw [Token.isSpelled_iff]
  exact ⟨And.right, fun hw => ⟨h.real t ht, hw⟩⟩

theorem before (h : Located source (t :: ts)) : ∀ u ∈ ts, t.position.Before u.position := by
  have hpairs := (Lexeme.pairwise_placed source).sublist h.placed.sublist
  rw [List.map_cons, List.pairwise_cons] at hpairs
  intro u hu
  exact hpairs.1 _ (List.mem_map.2 ⟨u, hu, rfl⟩)

/-- A keyword with a token behind it is the start of a struct with the name that this token spells. -/
theorem structAt {name : Token} (h : Located source (t :: name :: ts)) (ht : t.lexeme = "struct") :
    StructAt source name.lexeme t.position := by
  have hkeyword := h.standsAt (t := t) List.mem_cons_self
  rw [ht] at hkeyword
  refine ⟨hkeyword, name.position, ?_⟩
  have hplaced := h.placed
  rw [List.map_cons, List.map_cons, ht] at hplaced
  exact (List.prefix_append [("struct", t.position), (name.lexeme, name.position)] _).isInfix.trans hplaced.isInfix

end Located

theorem TokenStream.located_of_scan {source : String} {s : TokenStream} (h : (scan source).result = .ok s) :
    Located source s.tokens where
  placed := by
    have hplaced := (describes_of_scan h).map_placed
    rw [tokens_indexed] at hplaced
    rw [hplaced]
    exact List.suffix_refl _
  real := fun t ht => (Token.isSpelled_iff.1 ((classified_of_scan h).isSpelled_of_lexeme ht rfl)).1

end BufferSchema
