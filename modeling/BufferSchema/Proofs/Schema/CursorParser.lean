import BufferSchema.Proofs.Guarded
import BufferSchema.Proofs.Schema.EmptyStructs
import BufferSchema.Proofs.Token.Cursor
import BufferSchema.Schema.CursorParser

/-!
# Both ways to read a schema

A reader that moves a cursor from keyword to keyword reads what a reader reads that hands on the tokens left. Where
the one has its cursor on the last token read, the other has the tokens behind that. The numbers of the keywords lead
to the tokens that are left as well, since no field keyword stands inside a field and no struct keyword inside a
struct. And a cursor jumps to keywords of the text and is moved forward over tokens that have been seen. So none of
these moves leads outside, and in a text whose size is a 64-bit number no sum overflows.
-/

namespace BufferSchema

open Schema.Parser (mapShape? typeName)
open Token (first)

namespace TokenStream

variable {s : TokenStream} {c : Cursor} {i n : Nat}

/-- The tokens from the cursor on. -/
def ahead (s : TokenStream) (c : Cursor) : List Token := s.tokens.drop c.index.toNat

/-! What is read under a cursor is the first token left there, but for the number of the end of the text. -/

theorem get_eq_first (s : TokenStream) (i : Nat) :
    s.get i = first (s.tokens.drop i) ∨ s.get i = .endOfInput s.size ∧ s.tokens.drop i = [] := by
  cases hdrop : s.tokens.drop i with
  | nil =>
    have hnone : s.tokens[i]? = none := List.getElem?_eq_none (List.drop_eq_nil_iff.1 hdrop)
    exact .inr ⟨by rw [get, hnone]; rfl, rfl⟩
  | cons t ts =>
    have hsome : s.tokens[i]? = some t := by rw [← List.head?_drop, hdrop]; rfl
    exact .inl (by rw [get, hsome]; rfl)

theorem alike_get (s : TokenStream) (i : Nat) : (s.get i).kind = (first (s.tokens.drop i)).kind ∧
    (s.get i).lexeme = (first (s.tokens.drop i)).lexeme ∧
    (s.get i).position = (first (s.tokens.drop i)).position := by
  rcases get_eq_first s i with h | ⟨h, hnil⟩
  · rw [h]
    exact ⟨rfl, rfl, rfl⟩
  · rw [h, hnil]
    exact ⟨rfl, rfl, rfl⟩

theorem front_eq_get (s : TokenStream) (c : Cursor) : s.front c = s.get (c.index.toNat + 1) := by
  have hpos : ¬ ((c.index.toNat : Int) + 1 < 0) := by omega
  rw [front, peek?, if_neg hpos, get]
  rfl

theorem drop_succ_eq_tail (s : TokenStream) (c : Cursor) :
    s.tokens.drop (c.index.toNat + 1) = (s.ahead c).tail := by
  rw [ahead, List.tail_drop]

theorem kind_current (s : TokenStream) (c : Cursor) : (s.current c).kind = (first (s.ahead c)).kind :=
  (alike_get s _).1

theorem lexeme_current (s : TokenStream) (c : Cursor) : (s.current c).lexeme = (first (s.ahead c)).lexeme :=
  (alike_get s _).2.1

theorem position_current (s : TokenStream) (c : Cursor) : (s.current c).position = (first (s.ahead c)).position :=
  (alike_get s _).2.2

theorem isSpelled_current (s : TokenStream) (c : Cursor) (text : String) :
    (s.current c).isSpelled text = (first (s.ahead c)).isSpelled text := by
  rw [Token.isSpelled, Token.isSpelled, kind_current, lexeme_current]

theorem typeName_current (s : TokenStream) (c : Cursor) : typeName (s.current c) = typeName (first (s.ahead c)) := by
  rw [typeName, typeName, kind_current, lexeme_current, position_current]

theorem mapShape?_current (s : TokenStream) (c : Cursor) :
    mapShape? (s.current c) = mapShape? (first (s.ahead c)) := by
  rw [mapShape?, mapShape?, isSpelled_current, isSpelled_current]

theorem kind_front (s : TokenStream) (c : Cursor) : (s.front c).kind = (first (s.ahead c).tail).kind := by
  rw [front_eq_get, ← drop_succ_eq_tail]
  exact (alike_get s _).1

theorem lexeme_front (s : TokenStream) (c : Cursor) : (s.front c).lexeme = (first (s.ahead c).tail).lexeme := by
  rw [front_eq_get, ← drop_succ_eq_tail]
  exact (alike_get s _).2.1

theorem position_front (s : TokenStream) (c : Cursor) : (s.front c).position = (first (s.ahead c).tail).position := by
  rw [front_eq_get, ← drop_succ_eq_tail]
  exact (alike_get s _).2.2

theorem isSpelled_front (s : TokenStream) (c : Cursor) (text : String) :
    (s.front c).isSpelled text = (first (s.ahead c).tail).isSpelled text := by
  rw [Token.isSpelled, Token.isSpelled, kind_front, lexeme_front]

/-- A token at an index is one of the text, unless it is the end. -/
theorem lt_size_of_kind (h : (s.get i).kind ≠ .endOfInput) : i < s.size := by
  by_contra hle
  have hnone : s.tokens[i]? = none := List.getElem?_eq_none (Nat.le_of_not_lt hle)
  rw [get, hnone] at h
  exact h rfl

theorem lt_size_of_isSpelled {text : String} (h : (s.get i).isSpelled text = true) : i < s.size :=
  lt_size_of_kind (Token.isSpelled_iff.1 h).1

/-! How a cursor moves in what is left. -/

theorem advance_le (hsize : s.size < 2 ^ 64) (hc : c.index.toNat ≤ s.size) :
    (s.advance c).index.toNat ≤ s.size := by
  rw [toNat_advance hsize hc]
  exact Nat.min_le_right _ _

/-- A token is left behind, if there is one. -/
theorem ahead_advance (hsize : s.size < 2 ^ 64) (hc : c.index.toNat ≤ s.size) :
    s.ahead (s.advance c) = (s.ahead c).tail := by
  rw [ahead, toNat_advance hsize hc, ← drop_succ_eq_tail]
  by_cases hlt : c.index.toNat < s.size
  · rw [Nat.min_eq_left hlt]
  · have hnil (i : Nat) (hi : s.size ≤ i) : s.tokens.drop i = [] := List.drop_eq_nil_iff.2 hi
    rw [hnil _ (by omega), hnil _ (by omega)]

/-! The numbers of keywords. -/

/-- A stream as it is scanned, if its size is a 64-bit number. -/
structure Readable (s : TokenStream) : Prop where
  size_lt : s.size < 2 ^ 64
  numbered : s.Numbered
  regular : ∀ t ∈ s.tokens, t.Regular

theorem occurrences_append (us ts : List Token) (k : Keyword) :
    occurrences ⟨us ++ ts⟩ k = occurrences ⟨us⟩ k ++ occurrences ⟨ts⟩ k := by
  simp [occurrences, List.filter_append]

theorem occurrences_skip {us : List Token} {k : Keyword} (hus : ∀ t ∈ us, t.isSpelled k.text = false)
    (ts : List Token) : occurrences ⟨us ++ ts⟩ k = occurrences ⟨ts⟩ k := by
  rw [occurrences_append, (occurrences_eq_nil_iff k).2 hus, List.nil_append]

theorem Numbered.exists_of_mem_drop (hnum : s.Numbered) {t : Token} (ht : t ∈ s.tokens.drop i) :
    i ≤ t.index ∧ s.tokens[t.index]? = some t := by
  obtain ⟨j, hj⟩ := List.mem_iff_getElem?.1 ht
  rw [List.getElem?_drop] at hj
  have hindex := hnum _ _ hj
  exact ⟨by omega, by rwa [hindex]⟩

theorem Numbered.exists_of_mem_take (hnum : s.Numbered) {t : Token} (ht : t ∈ s.tokens.take i) :
    t.index < i ∧ s.tokens[t.index]? = some t := by
  obtain ⟨j, hj⟩ := List.mem_iff_getElem?.1 ht
  rw [List.getElem?_take] at hj
  split at hj
  · next hlt =>
    have hindex := hnum _ _ hj
    exact ⟨by omega, by rwa [hindex]⟩
  · cases hj

/-- A number of a keyword behind the first `i` tokens is one from `i` on, and the keyword has it. -/
theorem Numbered.of_mem_occurrences (hnum : s.Numbered) {place : Nat} {k : Keyword}
    (h : place ∈ occurrences ⟨s.tokens.drop i⟩ k) : i ≤ place ∧ (s.get place).isSpelled k.text = true := by
  obtain ⟨t, ht, rfl⟩ := List.mem_map.1 h
  obtain ⟨hmem, hspelled⟩ := List.mem_filter.1 ht
  obtain ⟨hle, hget⟩ := hnum.exists_of_mem_drop hmem
  refine ⟨hle, ?_⟩
  rw [get, hget]
  exact hspelled

/-- A keyword behind the cursor has the first of the numbers that are left. -/
theorem Numbered.occurrences_of_front (hnum : s.Numbered) {k : Keyword} (h : (s.front c).isSpelled k.text = true) :
    occurrences ⟨(s.ahead c).tail⟩ k = (c.index.toNat + 1) :: occurrences ⟨(s.ahead c).tail.tail⟩ k := by
  rw [isSpelled_front] at h
  obtain ⟨t, ts, htail, ht⟩ := Token.exists_cons_of_isSpelled h
  have hget : s.tokens[c.index.toNat + 1]? = some t := by
    rw [← List.head?_drop, drop_succ_eq_tail, htail]
    rfl
  have hindex := hnum _ _ hget
  rw [htail]
  simp [occurrences, ht, hindex]

end TokenStream

namespace Schema.CursorParser

open Schema.Parser (bind_eq_ok_iff typeName_eq_ok_iff)
open TokenStream

variable {a : Arithmetic} {s : TokenStream} {c d : Cursor} {i n : Nat}

/-- What was read, and the tokens behind the cursor that stands on the last token of it. -/
def behind {α : Type} (s : TokenStream) (r : α × Cursor) : α × List Token := (r.1, (s.ahead r.2).tail)

/-! Types. -/

theorem arrayElement_eq (hsize : s.size < 2 ^ 64) (hc : c.index.toNat ≤ s.size) (shape : Shape) :
    (arrayElement s shape c).map (behind s) = Parser.arrayElement shape (s.ahead c).tail := by
  simp only [arrayElement, Parser.arrayElement, typeName_current, ahead_advance hsize hc]
  cases typeName (first (s.ahead c).tail) with
  | error e => rfl
  | ok name => simp [bind, Except.bind, Except.map, behind, ahead_advance hsize hc]

theorem arrayType_eq (hsize : s.size < 2 ^ 64) (hc : c.index.toNat ≤ s.size) :
    (arrayType s c).map (behind s) = Parser.arrayType (s.current c).position (s.ahead c).tail := by
  have hnext := advance_le hsize hc
  simp only [arrayType, arrayShape, Parser.arrayType, kind_current, lexeme_current, position_current,
    isSpelled_current, ahead_advance hsize hnext, ahead_advance hsize hc]
  split
  · cases Parser.arraySize? (first (s.ahead c).tail).lexeme with
    | none => rfl
    | some count =>
      simp only
      split
      · rw [← ahead_advance hsize hc, ← ahead_advance hsize hnext]
        exact arrayElement_eq hsize (advance_le hsize hnext) _
      · rfl
  · split
    · rw [← ahead_advance hsize hc]
      exact arrayElement_eq hsize hnext _
    · rfl

theorem mapType_eq (hsize : s.size < 2 ^ 64) (hc : c.index.toNat ≤ s.size) :
    (mapType s c).map (behind s) = Parser.mapType (s.current c).position (s.ahead c).tail := by
  have hvalue := advance_le hsize hc
  have hclose := advance_le hsize hvalue
  simp only [mapType, Parser.mapType, position_current, isSpelled_current, mapShape?_current, typeName_current,
    ahead_advance hsize hclose, ahead_advance hsize hvalue, ahead_advance hsize hc]
  split
  · rfl
  · split
    · rfl
    · cases Parser.mapShape? (first (s.ahead c).tail.tail.tail) with
      | none => rfl
      | some shape =>
        cases typeName (first (s.ahead c).tail) with
        | error e => rfl
        | ok name =>
          simp [bind, Except.bind, Except.map, behind, ahead_advance hsize hclose, ahead_advance hsize hvalue,
            ahead_advance hsize hc]

theorem typeRef_eq (hsize : s.size < 2 ^ 64) (hc : c.index.toNat ≤ s.size) :
    (typeRef s c).map (behind s) = Parser.typeRef (s.ahead c) := by
  simp only [typeRef, Parser.typeRef, isSpelled_current, typeName_current]
  split
  · rw [mapType_eq hsize hc, position_current]
  · split
    · rw [arrayType_eq hsize hc, position_current]
    · cases typeName (first (s.ahead c)) <;> rfl

theorem lt_size_of_typeName {name : String} (h : typeName (s.current c) = .ok name) : c.index.toNat < s.size := by
  have hkind : (s.get c.index.toNat).kind = .typeName := (typeName_eq_ok_iff.1 h).1.kind
  exact lt_size_of_kind (by rw [hkind]; decide)

theorem lt_size_of_mapShape? {shape : Shape} (h : Parser.mapShape? (s.current c) = some shape) :
    c.index.toNat < s.size := by
  refine lt_size_of_kind fun hend => ?_
  have hkind : (s.current c).kind = .endOfInput := hend
  simp [Parser.mapShape?, Token.isSpelled, hkind] at h

theorem lt_size_of_arrayElement {shape : Shape} {type : TypeRef} (h : arrayElement s shape c = .ok (type, d)) :
    d.index.toNat < s.size := by
  obtain ⟨name, hname, h⟩ := bind_eq_ok_iff.1 h
  obtain ⟨-, rfl⟩ := Prod.mk.inj (Except.ok.inj h)
  exact lt_size_of_typeName hname

/-- The cursor is left on a token of the text. -/
theorem lt_size_of_typeRef {type : TypeRef} (h : typeRef s c = .ok (type, d)) : d.index.toNat < s.size := by
  simp only [typeRef] at h
  split at h
  · simp only [mapType] at h
    split at h
    · cases h
    · split at h
      · cases h
      · split at h
        · cases h
        · next shape hword =>
          obtain ⟨name, -, h⟩ := bind_eq_ok_iff.1 h
          obtain ⟨-, rfl⟩ := Prod.mk.inj (Except.ok.inj h)
          exact lt_size_of_mapShape? hword
  · split at h
    · obtain ⟨⟨shape, e⟩, -, h⟩ := bind_eq_ok_iff.1 h
      exact lt_size_of_arrayElement h
    · obtain ⟨name, hname, h⟩ := bind_eq_ok_iff.1 h
      obtain ⟨-, rfl⟩ := Prod.mk.inj (Except.ok.inj h)
      exact lt_size_of_typeName hname

/-! Fields. -/

/-- A move over tokens of the text comes through. -/
theorem exists_forward (a : Arithmetic) (hsize : s.size < 2 ^ 64) {k : UInt64}
    (h : c.index.toNat + k.toNat ≤ s.size) :
    ∃ d, forward a s c k = .ok d ∧ d.index.toNat = c.index.toNat + k.toNat := by
  obtain ⟨d, hd, hindex⟩ := stepForward_of_lt a s (c := c) (n := k) (by omega)
  rw [if_pos h] at hindex
  exact ⟨d, by rw [forward, hd], hindex⟩

theorem exists_forward_one (a : Arithmetic) (hsize : s.size < 2 ^ 64) (hc : c.index.toNat < s.size) :
    ∃ d, forward a s c 1 = .ok d ∧ d.index.toNat ≤ s.size ∧ s.ahead d = (s.ahead c).tail := by
  obtain ⟨d, hd, hindex⟩ := exists_forward a hsize (k := 1) hc
  refine ⟨d, hd, by rw [hindex]; exact hc, ?_⟩
  rw [ahead, hindex]
  exact drop_succ_eq_tail s c

/-- A keyword and the name behind it are passed. -/
theorem exists_forward_two (a : Arithmetic) (hsize : s.size < 2 ^ 64) (hname : (s.front c).kind ≠ .endOfInput) :
    ∃ d, forward a s c 2 = .ok d ∧ d.index.toNat = c.index.toNat + 2 ∧ d.index.toNat ≤ s.size ∧
      s.ahead d = (s.ahead c).tail.tail := by
  rw [front_eq_get] at hname
  have hlt : c.index.toNat + 1 < s.size := lt_size_of_kind hname
  obtain ⟨d, hd, hindex⟩ := exists_forward a hsize (k := 2) hlt
  refine ⟨d, hd, hindex, hindex.trans_le hlt, ?_⟩
  rw [← drop_succ_eq_tail, List.tail_drop, ahead, hindex]
  rfl

theorem exists_skipColon (a : Arithmetic) (hsize : s.size < 2 ^ 64) (hc : c.index.toNat ≤ s.size) :
    ∃ d, skipColon a s c = .ok d ∧ d.index.toNat ≤ s.size ∧ s.ahead d = Parser.skipColon (s.ahead c) := by
  simp only [skipColon, Parser.skipColon, ← isSpelled_current]
  split
  · next hcolon =>
    exact exists_forward_one a hsize (lt_size_of_isSpelled hcolon)
  · exact ⟨c, rfl, hc, rfl⟩

theorem toNat_jump_ofNat (hsize : s.size < 2 ^ 64) (hi : i ≤ s.size) :
    (s.jump c (.ofNat i)).index.toNat = i := by
  have htoNat : (UInt64.ofNat i).toNat = i := UInt64.toNat_ofNat_of_lt' (Nat.lt_of_le_of_lt hi hsize)
  rw [toNat_jump, htoNat, if_pos hi]

theorem field_eq (a : Arithmetic) (hsize : s.size < 2 ^ 64) (hi : i < s.size) (c : Cursor) :
    (field a s i c).map (behind s) =
      (Parser.field (s.get i).position (s.tokens.drop (i + 1))).mapError .refused := by
  have hindex := toNat_jump_ofNat (c := c) hsize hi.le
  generalize hjump : s.jump c (.ofNat i) = d at hindex
  subst hindex
  rw [drop_succ_eq_tail]
  simp only [field, Parser.field, hjump, lexeme_front, kind_front]
  cases Name.check (first (s.ahead d).tail).lexeme with
  | error e => rfl
  | ok _ =>
    simp only [bind, Except.bind, Except.mapError]
    split
    · next hkind =>
      rw [← kind_front] at hkind
      obtain ⟨e, he, -, hle, hskip⟩ := exists_forward_two a hsize (c := d) (by rw [hkind]; decide)
      obtain ⟨f, hf, hle, hahead⟩ := exists_skipColon a hsize hle
      rw [hskip] at hahead
      have htype := typeRef_eq hsize hle
      rw [hahead] at htype
      simp only [he, hf, ← htype]
      cases typeRef s f <;> rfl
    · rfl

theorem mapError_eq_ok_iff {α : Type} {x : Except CompileError α} {b : α} :
    x.mapError Stop.refused = .ok b ↔ x = .ok b := by
  cases x <;> simp [Except.mapError]

theorem lt_size_of_field {f : Field} (h : field a s i c = .ok (f, d)) : d.index.toNat < s.size := by
  obtain ⟨⟨⟩, -, h⟩ := bind_eq_ok_iff.1 h
  split at h
  · obtain ⟨_, -, h⟩ := bind_eq_ok_iff.1 h
    obtain ⟨_, -, h⟩ := bind_eq_ok_iff.1 h
    obtain ⟨⟨type, e⟩, htype, h⟩ := bind_eq_ok_iff.1 h
    obtain ⟨-, rfl⟩ := Prod.mk.inj (Except.ok.inj h)
    exact lt_size_of_typeRef (mapError_eq_ok_iff.1 htype)
  · cases h

/-- Both read the same, or both are refused for the same. -/
theorem cases_of_eq {α β : Type} {f : α → β} {x : Except Stop α} {y : Except CompileError β}
    (h : x.map f = y.mapError .refused) :
    (∃ e, x = .error (.refused e) ∧ y = .error e) ∨ ∃ r, x = .ok r ∧ y = .ok (f r) := by
  cases x with
  | error stop =>
    cases y with
    | error e => exact .inl ⟨e, Except.error.inj h ▸ rfl, rfl⟩
    | ok r => cases h
  | ok r =>
    cases y with
    | error e => cases h
    | ok r' => exact .inr ⟨r, rfl, congrArg Except.ok (Except.ok.inj h).symm⟩

theorem read_cases {α : Type} {x : Except Stop (α × Cursor)} {y : Except CompileError (α × List Token)}
    (h : x.map (behind s) = y.mapError .refused) :
    (∃ e, x = .error (.refused e) ∧ y = .error e) ∨
      ∃ r d, x = .ok (r, d) ∧ y = .ok (r, (s.ahead d).tail) :=
  (cases_of_eq h).imp_right fun ⟨⟨r, d⟩, hx, hy⟩ => ⟨r, d, hx, hy⟩

/-- A field is left behind in the text, and no keyword of a field stands in it. -/
theorem field_leaves (hs : s.Readable) {f : Field} (hfield : (s.get i).isSpelled Keyword.field.text = true)
    (h : field a s i c = .ok (f, d)) : i < d.index.toNat ∧
      occurrences ⟨s.tokens.drop (i + 1)⟩ .field = occurrences ⟨(s.ahead d).tail⟩ .field := by
  have hi := lt_size_of_isSpelled hfield
  have hd := lt_size_of_field h
  obtain ⟨e, he, -⟩ | ⟨f', d', hok, hread⟩ := read_cases (field_eq a hs.size_lt hi c)
  · cases he.symm.trans h
  · obtain ⟨rfl, rfl⟩ := Prod.mk.inj (Except.ok.inj (hok.symm.trans h))
    obtain ⟨us, hus, hsplit⟩ := Parser.fieldSyntax_of_field hfield hread
    have hnone : ∀ t ∈ us, t.isSpelled Keyword.field.text = false := by
      refine Parser.fieldSyntax_not_keyword hus (fun t ht => hs.regular t ?_) .field
      exact List.mem_of_mem_drop (hsplit ▸ List.mem_append_left _ ht)
    refine ⟨?_, by rw [hsplit, occurrences_skip hnone]⟩
    have hpos : 0 < us.length := by cases hus <;> simp
    have hlength := congrArg List.length hsplit
    rw [← drop_succ_eq_tail, List.length_append, List.length_drop, List.length_drop] at hlength
    change s.size - _ = _ + (s.size - _) at hlength
    omega

/-- A token stands between the cursor and a later one unless that is the next. -/
theorem stray?_eq (a : Arithmetic) (hs : s.Readable) {place : Nat} (hle : c.index.toNat + 1 ≤ place)
    (hplace : place < s.size) :
    stray? a s c place = .ok (if place = c.index.toNat + 1 then none else some (s.front c)) := by
  have hone : (1 : UInt64).toNat = 1 := rfl
  have hsize := hs.size_lt
  obtain ⟨start, hstart, hindex⟩ := Arithmetic.add?_of_lt (a := a) (m := c.index) (n := 1) (by omega)
  have hfits : c.index.toNat + 1 + (place - (c.index.toNat + 1)) ≤ s.size := by omega
  have hlt : c.index.toNat + 1 < s.tokens.length := Nat.lt_of_le_of_lt hle hplace
  have hfront : s.tokens[c.index.toNat + 1]? = some (s.front c) := by
    rw [front_eq_get, TokenStream.get, List.getElem?_eq_getElem hlt]
    rfl
  simp only [stray?, hstart, hindex, hone, slice?, if_pos hfits, Option.bind_some, List.head?_take, List.head?_drop,
    hfront]
  by_cases heq : place = c.index.toNat + 1
  · rw [if_pos heq, if_pos (by omega)]
  · rw [if_neg heq, if_neg (by omega)]

theorem fields_skip (a : Arithmetic) (s : TokenStream) {start : Nat} {places : List Nat}
    (h : ∀ place ∈ places, place < start) (current : Struct) (c : Cursor) (later : List Nat) :
    fields a s start current c (places ++ later) = fields a s start current c later := by
  induction places with
  | nil => rfl
  | cons place places ih =>
    rw [List.forall_mem_cons] at h
    rw [List.cons_append, fields, if_pos h.1, ih h.2]

/-- Where a field stands behind the cursor, the fields from there on are read. -/
theorem fields_eq (a : Arithmetic) (hs : s.Readable) {start : Nat} {places : List Nat}
    (hstart : start ≤ c.index.toNat + 1) (hplaces : places = occurrences ⟨(s.ahead c).tail⟩ .field)
    (hnext : (s.front c).isSpelled Keyword.field.text = true) (current : Struct) :
    (fields a s start current c places).map (behind s) =
      (Parser.fields current (s.front c).position (s.ahead c).tail.tail).mapError .refused := by
  induction places generalizing c current with
  | nil =>
    rw [hs.numbered.occurrences_of_front hnext] at hplaces
    cases hplaces
  | cons place places ih =>
    rw [hs.numbered.occurrences_of_front hnext] at hplaces
    obtain ⟨rfl, hlater⟩ := List.cons.inj hplaces
    have hkeyword : (s.get (c.index.toNat + 1)).isSpelled Keyword.field.text = true := front_eq_get s c ▸ hnext
    have hlt := lt_size_of_isSpelled hkeyword
    have hfield := field_eq a hs.size_lt hlt c
    rw [← front_eq_get, ← List.tail_drop, drop_succ_eq_tail] at hfield
    rw [fields, if_neg (by omega), stray?_eq a hs (Nat.le_refl _) hlt, if_pos rfl, Parser.fields_eq]
    simp only [bind, Except.bind]
    obtain ⟨e, he, hread⟩ | ⟨f, d, hok, hread⟩ := read_cases hfield
    · rw [he, hread]
      rfl
    · obtain ⟨hpast, hplaces'⟩ := field_leaves hs hkeyword hok
      rw [← List.tail_drop, drop_succ_eq_tail] at hplaces'
      rw [hok, hread]
      simp only [← isSpelled_front, ← position_front]
      split
      · rfl
      · split
        · obtain ⟨e, he, -, hahead⟩ := exists_forward_one a hs.size_lt (lt_size_of_field hok)
          rw [he]
          simp only [Except.map, Except.mapError, behind, hahead]
        · split
          · next hmore => exact ih (by omega) (hlater.trans hplaces') hmore _
          · rfl

/-- Where something other than a field stands behind the cursor, it is refused if a field comes later in the text.
If none does, nothing is read. -/
theorem fields_of_stray (a : Arithmetic) (hs : s.Readable) {start : Nat} (hstart : start ≤ c.index.toNat + 1)
    (hnext : (s.front c).isSpelled Keyword.field.text ≠ true) (current : Struct) :
    fields a s start current c (occurrences ⟨(s.ahead c).tail⟩ .field) =
      if (s.ahead c).tail.any (·.isSpelled Keyword.field.text) then
        .error (.refused (.tokenBeforeField (s.front c).lexeme (s.front c).position))
      else .ok (current, c) := by
  cases hplaces : occurrences ⟨(s.ahead c).tail⟩ .field with
  | nil =>
    have hnone : (s.ahead c).tail.any (·.isSpelled Keyword.field.text) = false := by
      simpa using (occurrences_eq_nil_iff .field).1 hplaces
    rw [hnone]
    rfl
  | cons place places =>
    have hmem : place ∈ occurrences ⟨s.tokens.drop (c.index.toNat + 1)⟩ .field := by
      rw [drop_succ_eq_tail, hplaces]
      exact List.mem_cons_self
    obtain ⟨hle, hspelled⟩ := hs.numbered.of_mem_occurrences hmem
    have hne : place ≠ c.index.toNat + 1 := by
      rintro rfl
      exact hnext (front_eq_get s c ▸ hspelled)
    have hsome : (s.ahead c).tail.any (·.isSpelled Keyword.field.text) = true := by
      rw [List.any_eq_true]
      obtain ⟨t, ht, -⟩ := List.mem_map.1 hmem
      exact ⟨t, drop_succ_eq_tail s c ▸ List.mem_of_mem_filter ht, (List.mem_filter.1 ht).2⟩
    rw [fields, if_neg (by omega), stray?_eq a hs hle (lt_size_of_isSpelled hspelled), if_neg hne, if_pos hsome]
    rfl

/-- Where no field keyword stands from the struct on up to its opening brace, under the cursor, its body is read. -/
theorem body_eq (a : Arithmetic) (hs : s.Readable) {start : Nat} (hc : c.index.toNat < s.size)
    (hstart : start ≤ c.index.toNat)
    (hfront : ∀ t ∈ s.tokens.take (c.index.toNat + 1), t.isSpelled Keyword.field.text = true → t.index < start)
    (current : Struct) :
    (body a s start current c).map (behind s) = (Parser.body current (s.ahead c).tail).mapError .refused := by
  simp only [body, Parser.body, ← isSpelled_front, ← lexeme_front, ← position_front]
  split
  · obtain ⟨d, hd, -, hahead⟩ := exists_forward_one a hs.size_lt hc
    rw [hd]
    simp only [bind, Except.bind, Except.map, Except.mapError, behind, hahead]
  · have hsplit : s.occurrences .field =
        occurrences ⟨s.tokens.take (c.index.toNat + 1)⟩ .field ++ occurrences ⟨(s.ahead c).tail⟩ .field := by
      rw [← occurrences_append, ← drop_succ_eq_tail, List.take_append_drop]
    have hskip : ∀ place ∈ occurrences ⟨s.tokens.take (c.index.toNat + 1)⟩ .field, place < start := by
      intro place hplace
      obtain ⟨t, ht, rfl⟩ := List.mem_map.1 hplace
      exact hfront t (List.mem_of_mem_filter ht) (List.mem_filter.1 ht).2
    rw [hsplit, fields_skip a s hskip]
    split
    · next hnext => exact fields_eq a hs (by omega) rfl hnext current
    · next hnext =>
      rw [fields_of_stray a hs (by omega) hnext]
      split <;> rfl

/-! Structs. -/

/-- The keyword of a struct, its name and its opening brace are no field keywords. -/
theorem lt_of_field_in_header (hs : s.Readable) (hkeyword : (s.get i).isSpelled Keyword.struct.text = true)
    (hname : (s.get (i + 1)).kind = .name .struct) (hopen : (s.get (i + 2)).isSpelled "\x7b" = true) :
    ∀ t ∈ s.tokens.take (i + 3), t.isSpelled Keyword.field.text = true → t.index < i := by
  intro t ht hfield
  obtain ⟨hlt, hget⟩ := hs.numbered.exists_of_mem_take ht
  have htoken : s.get t.index = t := by rw [TokenStream.get, hget]; rfl
  by_contra hle
  obtain heq | heq | heq : t.index = i ∨ t.index = i + 1 ∨ t.index = i + 2 := by omega
  · rw [heq] at htoken
    rw [← htoken, Parser.isSpelled_eq_false_of_ne hkeyword (by decide)] at hfield
    cases hfield
  · rw [heq] at htoken
    have hnone := Parser.isSpelled_keyword_eq_false (hs.regular t (List.mem_of_mem_take ht))
      (by simp [← htoken, hname]) .field
    cases hnone.symm.trans hfield
  · rw [heq] at htoken
    rw [← htoken, Parser.isSpelled_eq_false_of_ne hopen (by decide)] at hfield
    cases hfield

theorem struct_eq (a : Arithmetic) (hs : s.Readable) (hkeyword : (s.get i).isSpelled Keyword.struct.text = true)
    (c : Cursor) : (struct a s i c).map (behind s) =
      (Parser.struct (s.get i).position (s.tokens.drop (i + 1))).mapError .refused := by
  have hi := lt_size_of_isSpelled hkeyword
  have hindex := toNat_jump_ofNat (c := c) hs.size_lt hi.le
  generalize hjump : s.jump c (.ofNat i) = d at hindex
  subst hindex
  rw [drop_succ_eq_tail]
  simp only [struct, Parser.struct, hjump, lexeme_front, kind_front]
  cases Name.check (first (s.ahead d).tail).lexeme with
  | error e => rfl
  | ok _ =>
    simp only [bind, Except.bind, Except.mapError]
    split
    · next hkind =>
      split
      · rfl
      · rw [← kind_front] at hkind
        obtain ⟨e, he, hindex, -, hskip⟩ := exists_forward_two a hs.size_lt (c := d) (by rw [hkind]; decide)
        simp only [he, isSpelled_current, lexeme_current, hskip]
        split
        · next hopen =>
          rw [← hskip, ← isSpelled_current] at hopen
          have hlt : e.index.toNat < s.size := lt_size_of_isSpelled hopen
          have hopen' : (s.get (d.index.toNat + 2)).isSpelled "\x7b" = true := hindex ▸ hopen
          have hfront := lt_of_field_in_header hs hkeyword (front_eq_get s d ▸ hkind) hopen'
          rw [body_eq a hs hlt (by omega) (by rw [hindex]; exact hfront), hskip]
          rfl
        · rfl
    · rfl

/-- A struct with fields is left behind in the text, and no keyword of a struct stands in it. -/
theorem occurrences_of_struct (hs : s.Readable) {t : Struct} {rest : List Token}
    (hkeyword : (s.get i).isSpelled Keyword.struct.text = true)
    (h : Parser.struct (s.get i).position (s.tokens.drop (i + 1)) = .ok (t, rest)) (hne : t.fields ≠ []) :
    occurrences ⟨s.tokens.drop (i + 1)⟩ .struct = occurrences ⟨rest⟩ .struct := by
  obtain ⟨us, hus, hsplit⟩ := Parser.structSyntax_of_struct hkeyword h hne
  have hnone : ∀ u ∈ us, u.isSpelled Keyword.struct.text = false := by
    have hreg : ∀ u ∈ us, u.Regular := fun u hu =>
      hs.regular u (List.mem_of_mem_drop (hsplit ▸ List.mem_append_left _ hu))
    exact fun u hu => (Parser.structSyntax_outside hus hreg u hu).1
  rw [hsplit, occurrences_skip hnone]

/-- The first of the numbers is that of the first struct. -/
theorem occurrences_of_dropWhile (hs : s.Readable) {keyword : Token} {rest : List Token}
    (h : (s.tokens.drop i).dropWhile (!·.isSpelled Keyword.struct.text) = keyword :: rest) :
    ∃ j, s.get j = keyword ∧ s.tokens.drop (j + 1) = rest ∧
      occurrences ⟨s.tokens.drop i⟩ .struct = j :: occurrences ⟨rest⟩ .struct := by
  obtain ⟨hkeyword, before, hsplit, hbefore⟩ := Parser.split_at_struct h
  have hdrop : s.tokens.drop (i + before.length) = keyword :: rest := by
    rw [← List.drop_drop, hsplit, List.drop_left]
  have hget : s.tokens[i + before.length]? = some keyword := by
    rw [← List.head?_drop, hdrop]
    rfl
  refine ⟨i + before.length, by rw [TokenStream.get, hget]; rfl, ?_, ?_⟩
  · rw [← List.tail_drop, hdrop, List.tail_cons]
  · rw [hsplit, occurrences_skip hbefore, ← hs.numbered _ _ hget]
    simp [occurrences, hkeyword]

/-- The structs from some token on are read by the numbers of their keywords. -/
theorem structs_eq (a : Arithmetic) (hs : s.Readable) {places : List Nat}
    (hplaces : places = occurrences ⟨s.tokens.drop i⟩ .struct) (known : Table Struct) (c : Cursor) :
    (structs a s known c places).map Prod.fst =
      (Parser.structs known (s.tokens.drop i)).mapError .refused := by
  induction places generalizing i known c with
  | nil =>
    rw [Parser.structs_of_no_struct ((occurrences_eq_nil_iff .struct).1 hplaces.symm)]
    rfl
  | cons place places ih =>
    rw [Parser.structs_eq]
    cases hdrop : (s.tokens.drop i).dropWhile (!·.isSpelled Keyword.struct.text) with
    | nil =>
      have hnone : ∀ t ∈ s.tokens.drop i, t.isSpelled Keyword.struct.text = false := by
        simpa [List.dropWhile_eq_nil_iff] using hdrop
      cases hplaces.trans ((occurrences_eq_nil_iff .struct).2 hnone)
    | cons keyword rest =>
      obtain ⟨j, rfl, rfl, hfirst⟩ := occurrences_of_dropWhile hs hdrop
      obtain ⟨rfl, hlater⟩ := List.cons.inj (hplaces.trans hfirst)
      have hkeyword := (Parser.split_at_struct hdrop).1
      simp only [structs, bind, Except.bind]
      obtain ⟨e, he, hread⟩ | ⟨t, d, hok, hread⟩ := read_cases (struct_eq a hs hkeyword c)
      · rw [he, hread]
        rfl
      · rw [hok, hread]
        simp only [isSpelled_front, lexeme_front, position_front]
        cases known.find? t.name with
        | some earlier => rfl
        | none =>
          simp only
          split
          · rfl
          · next hfields =>
            split
            · rw [occurrences_of_struct hs hkeyword hread (by simpa using hfields), ← drop_succ_eq_tail] at hlater
              rw [← drop_succ_eq_tail]
              exact ih hlater _ d
            · rfl

/-! The whole text. -/

theorem readExports_eq (hs : s.Readable) (known : Table Struct) (c : Cursor) :
    readExports s known c = Guarded.readExports s known := by
  rw [readExports, Guarded.readExports]
  cases hplaces : s.occurrences .exports with
  | nil => rfl
  | cons index places =>
    have hmem : index ∈ occurrences ⟨s.tokens.drop 0⟩ .exports := by
      rw [List.drop_zero, show occurrences ⟨s.tokens⟩ .exports = _ from hplaces]
      exact List.mem_cons_self
    have hlt := lt_size_of_isSpelled (hs.numbered.of_mem_occurrences hmem).2
    have hcurrent : s.current (s.jump c (.ofNat (index + 1))) = s.get (index + 1) := by
      rw [current, toNat_jump_ofNat hs.size_lt hlt]
    simp only [hcurrent]

/-- Whatever the arithmetic, a reader with a cursor reads the schema of the tokens that it moves along, or refuses
them for the same. -/
theorem ofTokens_eq (a : Arithmetic) (hs : s.Readable) :
    ofTokens a s = (Schema.ofTokens s).mapError .refused := by
  rw [← Guarded.ofTokens_eq hs.numbered, ofTokens, Guarded.ofTokens]
  cases Guarded.checkReady s with
  | error e => rfl
  | ok _ =>
    have hstructs : (structs a s ∅ ⟨0⟩ (s.occurrences .struct)).map Prod.fst =
        (Parser.structs ∅ s.tokens).mapError .refused :=
      structs_eq a hs (i := 0) rfl ∅ ⟨0⟩
    obtain ⟨e, he, hread⟩ | ⟨⟨table, c⟩, hok, hread⟩ := cases_of_eq hstructs
    · simp only [bind, Except.bind, Except.mapError, he, hread]
    · simp only [bind, Except.bind, Except.mapError, hok, hread, readExports_eq hs]
      cases Guarded.readExports s table <;> rfl

/-- So it does for every text that is scanned, as long as the number of its tokens fits 64 bits. -/
theorem ofTokens_of_scan (a : Arithmetic) {source : String} (hscan : (scan source).result = .ok s)
    (hsize : s.size < 2 ^ 64) : ofTokens a s = (Schema.ofTokens s).mapError .refused :=
  ofTokens_eq a ⟨hsize, numbered_of_scan hscan, regular_of_scan hscan⟩

end Schema.CursorParser

end BufferSchema
