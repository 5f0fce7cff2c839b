import BufferSchema.Text.Position
import Mathlib.Data.List.Induction

/-!
# Places by counting

The place behind some characters, which `Position.advance` finds step by step, is a matter of counting line feeds and
the characters behind the last one. Going on over characters leads to later places.
-/

namespace BufferSchema.Text.Position

/-- The place behind the characters `front` of a text. -/
def behind (front : List Char) : Position :=
  ⟨1 + front.count '\n', 1 + (front.reverse.takeWhile (· != '\n')).length⟩

theorem behind_concat (front : List Char) (c : Char) : behind (front ++ [c]) = (behind front).next c := by
  by_cases hc : c = '\n'
  · subst hc
    simp [behind, next, Nat.add_assoc]
  · simp [behind, next, hc, Nat.add_assoc]

theorem advance_start (front : List Char) : start.advance front = behind front := by
  induction front using List.reverseRecOn with
  | nil => rfl
  | append_singleton front c ih => rw [advance_append, ih, behind_concat, advance_cons, advance_nil]

/-- The place `p` comes before `q`. -/
def Before (p q : Position) : Prop := p.line < q.line ∨ p.line = q.line ∧ p.column < q.column

instance (p q : Position) : Decidable (p.Before q) := inferInstanceAs (Decidable (_ ∨ _))

theorem Before.trans {p q r : Position} (hpq : p.Before q) (hqr : q.Before r) : p.Before r := by
  unfold Before at *
  omega

theorem before_next (p : Position) (c : Char) : p.Before (p.next c) := by
  unfold Before next
  split
  · exact .inl (Nat.lt_succ_self _)
  · exact .inr ⟨rfl, Nat.lt_succ_self _⟩

/-- Every character moves a place on, a line break to a later line. -/
theorem before_advance (p : Position) {cs : List Char} (h : cs ≠ []) : p.Before (p.advance cs) := by
  induction cs generalizing p with
  | nil => exact absurd rfl h
  | cons c cs ih =>
    rw [advance_cons]
    cases cs with
    | nil => exact before_next p c
    | cons d cs => exact (before_next p c).trans (ih (p.next c) (by simp))

theorem Before.irrefl (p : Position) : ¬ p.Before p := by
  unfold Before
  omega

theorem behind_before (front : List Char) {more : List Char} (h : more ≠ []) :
    (behind front).Before (behind (front ++ more)) := by
  rw [← advance_start, ← advance_start, advance_append]
  exact before_advance _ h

/-- A line and a column of a text are those of one place in it. -/
theorem eq_of_behind_eq {front rest front' rest' : List Char} (h : front ++ rest = front' ++ rest')
    (hplace : behind front = behind front') : front = front' := by
  rcases List.append_eq_append_iff.1 h with ⟨more, rfl, -⟩ | ⟨more, rfl, -⟩
  · by_cases hmore : more = []
    · rw [hmore, List.append_nil]
    · exact absurd (hplace ▸ behind_before front hmore) (Before.irrefl _)
  · by_cases hmore : more = []
    · rw [hmore, List.append_nil]
    · exact absurd (hplace ▸ behind_before front' hmore) (Before.irrefl _)

end BufferSchema.Text.Position
