/-!
# Counting

A walk or a search that ends because some count becomes smaller needs to know when it does.
-/

namespace BufferSchema

/-- Fewer members have the narrower property, if some member has only the wider one. -/
theorem countP_lt_of_mem {α : Type} {p q : α → Bool} {l : List α}
    (h : ∀ a ∈ l, p a = true → q a = true)
    {a : α} (ha : a ∈ l) (hq : q a = true) (hp : p a = false) : l.countP p < l.countP q := by
  induction l with
  | nil => simp at ha
  | cons b l ih =>
    have hle : l.countP p ≤ l.countP q :=
      List.countP_mono_left fun x hx => h x (List.mem_cons_of_mem b hx)
    rcases List.mem_cons.1 ha with rfl | ha
    · simp only [List.countP_cons, hq, hp]
      simp only [Bool.false_eq_true, if_false, if_true]
      omega
    · have := ih (fun x hx => h x (List.mem_cons_of_mem b hx)) ha
      have hb := h b List.mem_cons_self
      simp only [List.countP_cons]
      cases hpb : p b
      · simp only [Bool.false_eq_true, if_false]; omega
      · simp only [hb hpb, if_true]; omega

end BufferSchema
