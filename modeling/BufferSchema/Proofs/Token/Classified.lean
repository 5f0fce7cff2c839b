import BufferSchema.Proofs.Lexeme.Layout
import BufferSchema.Token.Stream

/-!
# From words to tokens

The tokens of a text are its words, each with a kind that its text and the token before it settle.
`Token.Classified` says this of a list of tokens; the rest of the module reads the kinds off the
texts, which is all that the reading of a schema depends on.
-/

namespace BufferSchema

open Lexeme (Word)

namespace Token

/-- Each token has the kind that its text has behind the token before it. -/
inductive Classified : Option Kind → List Token → Prop where
  | nil {before? : Option Kind} : Classified before? []
  | cons {before? : Option Kind} {l : Lexeme} {t : Token} {ts : List Token}
      (hword : Word l.kind l.text.toList) (htext : l.text = t.lexeme)
      (hkind : Kind.ofLexeme? before? l = some t.kind) (hrest : Classified (some t.kind) ts) :
      Classified before? (t :: ts)

/-- A token that is spelled like a keyword is that keyword. -/
def Regular (t : Token) : Prop := ∀ k : Keyword, t.lexeme = k.text → t.kind = .keyword k

theorem word_keyword (k : Keyword) : Word .identifier k.text.toList := by
  cases k <;> exact .identifier (by decide)

theorem word_operator {w : String} (h : w ∈ operators) : Word .mark w.toList := by
  simp only [operators, List.mem_cons, List.not_mem_nil, or_false] at h
  rcases h with h | h | h | h | h <;> rw [h] <;> exact .mark (by decide) (by decide) (by decide)

/-- A word has one kind: its first character gives it away. -/
theorem word_kind_unique {k k' : Lexeme.Kind} {w : List Char} (h : Word k w) (h' : Word k' w) : k = k' := by
  cases h with
  | identifier h =>
    cases h' with
    | identifier _ => rfl
    | int _ h' =>
      cases w with
      | nil => exact h.elim
      | cons c cs =>
        have := Text.isNameStart_eq_false_of_isDigit (h' c List.mem_cons_self)
        simp [h.1] at this
    | mark _ hstart _ => simp [h.1] at hstart
  | int hne h =>
    cases h' with
    | identifier h' =>
      cases w with
      | nil => exact h'.elim
      | cons c cs =>
        have := Text.isNameStart_eq_false_of_isDigit (h c List.mem_cons_self)
        simp [h'.1] at this
    | int _ _ => rfl
    | mark _ _ hdigit => simp [h] at hdigit
  | mark _ hstart hdigit =>
    cases h' with
    | identifier h' => simp [h'.1] at hstart
    | int _ h' => simp [h'] at hdigit
    | mark _ _ _ => rfl

/-! The kinds, read off the texts. -/

section Kinds

variable {before? : Option Kind} {t : Token} {ts : List Token}

theorem Classified.tail (h : Classified before? (t :: ts)) : Classified (some t.kind) ts := by
  cases h with
  | cons _ _ _ hrest => exact hrest

/-- A word that is spelled like a keyword is one, whatever stands before it. -/
theorem Classified.kind_of_keyword (h : Classified before? (t :: ts)) {k : Keyword} (ht : t.lexeme = k.text) :
    t.kind = .keyword k := by
  cases h with
  | @cons _ l _ _ hword htext hkind _ =>
    rw [htext, ht] at hword
    have hl := word_kind_unique hword (word_keyword k)
    have hk : Keyword.ofText? l.text = some k := Keyword.ofText?_eq_some_iff.2 (htext.trans ht)
    simp only [Kind.ofLexeme?, hl, hk, Option.some.injEq] at hkind
    exact hkind.symm

theorem Classified.regular (h : Classified before? ts) : ∀ t ∈ ts, t.Regular := by
  induction h with
  | nil => simp
  | @cons _ l t ts hword htext hkind hrest ih =>
    intro u hu
    rcases List.mem_cons.1 hu with rfl | hu
    · exact fun k hk => (Classified.cons hword htext hkind hrest).kind_of_keyword hk
    · exact ih u hu

/-- A name behind a keyword names what the keyword introduces. -/
theorem Classified.kind_of_name {k : Keyword} (h : Classified (some (.keyword k)) (t :: ts))
    (hid : Text.IsIdentifier t.lexeme.toList) (hkey : Keyword.ofText? t.lexeme = none) : t.kind = .name k := by
  cases h with
  | @cons _ l _ _ hword htext hkind _ =>
    rw [htext] at hword
    have hl := word_kind_unique hword (.identifier hid)
    simp only [Kind.ofLexeme?, hl, htext, hkey, Option.some.injEq] at hkind
    exact hkind.symm

/-- A name behind anything else is a type. -/
theorem Classified.kind_of_type {kind : Kind} (h : Classified (some kind) (t :: ts))
    (hbefore : ∀ k, kind ≠ .keyword k) (hid : Text.IsIdentifier t.lexeme.toList)
    (hkey : Keyword.ofText? t.lexeme = none) : t.kind = .typeName := by
  cases h with
  | @cons _ l _ _ hword htext hkind _ =>
    rw [htext] at hword
    have hl := word_kind_unique hword (.identifier hid)
    simp only [Kind.ofLexeme?, hl, htext, hkey] at hkind
    split at hkind
    · next k heq => exact absurd (Option.some.inj heq) (hbefore k)
    · exact (Option.some.inj hkind).symm

theorem Classified.kind_of_digits (h : Classified before? (t :: ts)) (hne : t.lexeme.toList ≠ [])
    (hdigits : ∀ c ∈ t.lexeme.toList, c.isDigit = true) : t.kind = .int := by
  cases h with
  | @cons _ l _ _ hword htext hkind _ =>
    rw [htext] at hword
    have hl := word_kind_unique hword (.int hne hdigits)
    simp only [Kind.ofLexeme?, hl, Option.some.injEq] at hkind
    exact hkind.symm

theorem Classified.kind_of_operator (h : Classified before? (t :: ts)) (ht : t.lexeme ∈ operators) :
    t.kind = .operator := by
  have hmark := word_operator ht
  cases h with
  | @cons _ l _ _ hword htext hkind _ =>
    rw [htext] at hword
    have hl := word_kind_unique hword hmark
    simp only [Kind.ofLexeme?, hl, htext, if_pos ht, Option.some.injEq] at hkind
    exact hkind.symm

/-- All that a lexeme can become. -/
theorem Kind.cases_of_ofLexeme? {l : Lexeme} {kind : Kind} (h : Kind.ofLexeme? before? l = some kind) :
    (l.kind = .int ∧ kind = .int) ∨ kind = .operator ∨ (∃ k : Keyword, l.text = k.text ∧ kind = .keyword k) ∨
      (∃ k, kind = .name k) ∨ kind = .typeName := by
  unfold Kind.ofLexeme? at h
  split at h
  · cases h
  · next hint => exact .inl ⟨hint, (Option.some.inj h).symm⟩
  · obtain ⟨-, h⟩ := Option.ite_none_right_eq_some.1 h
    exact .inr (.inl (Option.some.inj h).symm)
  · split at h
    · next k hk =>
      exact .inr (.inr (.inl ⟨k, Keyword.ofText?_eq_some_iff.1 hk, (Option.some.inj h).symm⟩))
    · split at h
      · exact .inr (.inr (.inr (.inl ⟨_, (Option.some.inj h).symm⟩)))
      · exact .inr (.inr (.inr (.inr (Option.some.inj h).symm)))

theorem Classified.digits_of_int (h : Classified before? ts) :
    ∀ t ∈ ts, t.kind = .int → t.lexeme.toList ≠ [] ∧ ∀ c ∈ t.lexeme.toList, c.isDigit = true := by
  induction h with
  | nil => simp
  | @cons before? l t ts hword htext hkind _ ih =>
    intro u hu hint
    rcases List.mem_cons.1 hu with rfl | hu
    · have hl : l.kind = .int := by
        rw [hint] at hkind
        rcases Kind.cases_of_ofLexeme? hkind with ⟨hl, -⟩ | hk | ⟨k, -, hk⟩ | ⟨k, hk⟩ | hk
        · exact hl
        all_goals cases hk
      rw [hl, htext] at hword
      cases hword with
      | int hne h => exact ⟨hne, h⟩
    · exact ih u hu hint

theorem Classified.isSpelled_of_lexeme (h : Classified before? ts) {u : Token} (hu : u ∈ ts) {text : String}
    (htext : u.lexeme = text) : u.isSpelled text = true := by
  refine isSpelled_iff.2 ⟨?_, htext⟩
  induction h with
  | nil => simp at hu
  | @cons before? l t ts _ _ hkind _ ih =>
    rcases List.mem_cons.1 hu with rfl | hu
    · rcases Kind.cases_of_ofLexeme? hkind with ⟨-, hk⟩ | hk | ⟨k, -, hk⟩ | ⟨k, hk⟩ | hk <;> simp [hk]
    · exact ih hu

theorem Classified.of_append {us : List Token} (h : Classified before? (ts ++ us)) :
    ∃ before?, Classified before? us := by
  induction ts generalizing before? with
  | nil => exact ⟨before?, h⟩
  | cons t ts ih => exact ih h.tail

end Kinds

end Token

/-! Scanning. -/

namespace Scan

/-- The tokens that the scanner accepts are classified by the words before them. -/
theorem classified_accepted {ls : List Lexeme} (hls : ∀ l ∈ ls, Word l.kind l.text.toList) (index : Nat)
    (before? : Option Token.Kind) : Token.Classified before? (accept index before? ls).accepted := by
  induction ls generalizing index before? with
  | nil => exact .nil
  | cons l ls ih =>
    unfold accept
    split
    · exact .nil
    · next kind hkind =>
      split
      · exact .nil
      · exact .cons (hls l List.mem_cons_self) rfl hkind
          (ih (fun l' hl' => hls l' (List.mem_cons_of_mem l hl')) _ _)

end Scan

namespace TokenStream

theorem scan_result_eq_ok_iff {source : String} {tokens : TokenStream} :
    (scan source).result = .ok tokens ↔
      (Scan.ofText source).failure = none ∧ tokens = ⟨(Scan.ofText source).accepted⟩ := by
  simp only [scan]
  cases (Scan.ofText source).failure with
  | none => simp [eq_comm]
  | some e => simp

theorem classified_of_scan {source : String} {tokens : TokenStream} (h : (scan source).result = .ok tokens) :
    Token.Classified none tokens.tokens := by
  obtain ⟨-, rfl⟩ := scan_result_eq_ok_iff.1 h
  exact Scan.classified_accepted (fun l hl => Lexeme.word_of_mem_words hl) 0 none

end TokenStream

end BufferSchema
