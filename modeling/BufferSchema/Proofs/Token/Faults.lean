import BufferSchema.Token.Basic
import BufferSchema.CompileError

/-!
# The first fault of a text

Two checks can end a scan, one for marks that the grammar does not use and one for what comes first. Of the lexemes
that fail one of them, the first gives the error, and a text without such a lexeme is scanned to its end. The faults
are said of the lexemes alone, with their numbers, and the first one is the only one that has an error to give.
-/

namespace BufferSchema

/-- What can be wrong with the lexeme that has the number `i` in a text: it is a mark that the grammar does not use, or
it comes first and is no keyword. -/
inductive Lexeme.Fault : Nat → Lexeme → CompileError → Prop where
  | unknown {i : Nat} {l : Lexeme} (hmark : l.kind = .mark) (htext : l.text ∉ Token.operators) :
      Fault i l (.unknownOperator l.text l.position)
  | leading {l : Lexeme} (hmark : l.kind = .mark → l.text ∈ Token.operators) (hkey : ∀ k : Keyword, l.text ≠ k.text) :
      Fault 0 l (.leadingToken l.text)

/-- The lexemes have a fault with the error `e`, and none in front of it. -/
def Lexeme.FirstFault (ls : List Lexeme) (e : CompileError) : Prop :=
  ∃ i l, ls[i]? = some l ∧ Fault i l e ∧ ∀ j < i, ∀ m, ls[j]? = some m → ∀ e', ¬ Fault j m e'

/-- No lexeme has a fault: all marks are used by the grammar, and the first lexeme is a keyword. -/
def Lexeme.Faultless (ls : List Lexeme) : Prop :=
  (∀ l ∈ ls, l.kind = .mark → l.text ∈ Token.operators) ∧ ∀ l, ls.head? = some l → ∃ k : Keyword, l.text = k.text

namespace Lexeme

variable {ls : List Lexeme} {e e' : CompileError}

theorem Fault.unique {i : Nat} {l : Lexeme} (h : Fault i l e) (h' : Fault i l e') : e = e' := by
  cases h with
  | unknown hmark htext =>
    cases h' with
    | unknown => rfl
    | leading hknown _ => exact absurd (hknown hmark) htext
  | leading hknown _ =>
    cases h' with
    | unknown hmark htext => exact absurd (hknown hmark) htext
    | leading => rfl

theorem FirstFault.unique (h : FirstFault ls e) (h' : FirstFault ls e') : e = e' := by
  obtain ⟨i, l, hl, hfault, hfirst⟩ := h
  obtain ⟨j, m, hm, hfault', hfirst'⟩ := h'
  rcases Nat.lt_trichotomy i j with hij | rfl | hij
  · exact absurd hfault (hfirst' i hij l hl e)
  · obtain rfl : l = m := Option.some.inj (hl.symm.trans hm)
    exact hfault.unique hfault'
  · exact absurd hfault' (hfirst j hij m hm e')

theorem faultless_iff : Faultless ls ↔ ∀ i l, ls[i]? = some l → ∀ e, ¬ Fault i l e := by
  constructor
  · rintro ⟨hmarks, hhead⟩ i l hl e hfault
    cases hfault with
    | unknown hmark htext => exact htext (hmarks l (List.mem_of_getElem? hl) hmark)
    | leading _ hkey =>
      obtain ⟨k, hk⟩ := hhead l (by rw [List.head?_eq_getElem?]; exact hl)
      exact hkey k hk
  · intro h
    have hmarks : ∀ l ∈ ls, l.kind = .mark → l.text ∈ Token.operators := by
      intro l hl hmark
      obtain ⟨i, hi⟩ := List.getElem?_of_mem hl
      refine Classical.byContradiction fun htext => ?_
      exact h i l hi _ (.unknown hmark htext)
    refine ⟨hmarks, fun l hl => ?_⟩
    rw [List.head?_eq_getElem?] at hl
    refine Classical.byContradiction fun hkey => ?_
    exact h 0 l hl _ (.leading (hmarks l (List.mem_of_getElem? hl)) fun k hk => hkey ⟨k, hk⟩)

theorem FirstFault.not_faultless (h : FirstFault ls e) : ¬ Faultless ls := by
  intro hnone
  obtain ⟨i, l, hl, hfault, -⟩ := h
  exact faultless_iff.1 hnone i l hl e hfault

/-- A fault stays the first one when more lexemes follow. -/
theorem FirstFault.append (h : FirstFault ls e) (more : List Lexeme) : FirstFault (ls ++ more) e := by
  obtain ⟨i, l, hl, hfault, hfirst⟩ := h
  have hi : i < ls.length := (List.getElem?_eq_some_iff.1 hl).1
  refine ⟨i, l, by rw [List.getElem?_append_left hi, hl], hfault, fun j hj m hm => ?_⟩
  rw [List.getElem?_append_left (Nat.lt_trans hj hi)] at hm
  exact hfirst j hj m hm

/-- Behind lexemes without a fault, the next one decides. -/
theorem Faultless.firstFault_concat (h : Faultless ls) {l : Lexeme} (hfault : Fault ls.length l e) :
    FirstFault (ls ++ [l]) e := by
  refine ⟨ls.length, l, List.getElem?_concat_length, hfault, fun j hj m hm => ?_⟩
  rw [List.getElem?_append_left hj] at hm
  exact faultless_iff.1 h j m hm

/-- A list that has grown at its end has one more number. -/
theorem getElem?_concat_iff {l m : Lexeme} {i : Nat} :
    (ls ++ [l])[i]? = some m ↔ ls[i]? = some m ∨ i = ls.length ∧ l = m := by
  rcases Nat.lt_or_ge i ls.length with hi | hi
  · rw [List.getElem?_append_left hi]
    exact ⟨.inl, fun h => h.resolve_right fun ⟨heq, _⟩ => Nat.ne_of_lt hi heq⟩
  · rw [List.getElem?_append_right hi, List.getElem?_singleton, List.getElem?_eq_none hi]
    constructor
    · intro h
      obtain ⟨hzero, hm⟩ := Option.ite_none_right_eq_some.1 h
      exact .inr ⟨by omega, Option.some.inj hm⟩
    · rintro (h | ⟨rfl, rfl⟩)
      · cases h
      · rw [Nat.sub_self, if_pos rfl]

theorem Faultless.concat (h : Faultless ls) {l : Lexeme} (hl : ∀ e, ¬ Fault ls.length l e) :
    Faultless (ls ++ [l]) := by
  refine faultless_iff.2 fun i m hm => ?_
  rcases getElem?_concat_iff.1 hm with hm | ⟨rfl, rfl⟩
  · exact faultless_iff.1 h i m hm
  · exact hl

end Lexeme

end BufferSchema
