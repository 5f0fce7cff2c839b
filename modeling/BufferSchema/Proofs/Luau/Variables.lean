import BufferSchema.Luau.Local
import Mathlib.Data.List.Forall2

/-!
# The variables of fields

A field is kept in a variable of its own name, or in a fresh one if that name belongs to the generated
code. Either way no two fields share a variable, and no variable hides a name of the generated code.
-/

namespace BufferSchema.Luau

theorem isTaken_eq_false_iff {name : String} :
    isTaken name = false ↔
      name ∉ ownVariables ∧ ¬ "read_".toList <+: name.toList ∧ ¬ "write_".toList <+: name.toList := by
  simp only [isTaken, Bool.or_eq_false_iff, decide_eq_false_iff_not, ← List.isPrefixOf_iff_prefix,
    Bool.not_eq_true, and_assoc]

/-- A fresh name is none of the others. -/
theorem fresh_not_mem (others : List String) (name : String) : fresh others name ∉ others := by
  fun_induction fresh others name with
  | case1 name _ ih => exact ih
  | case2 name h => exact h

theorem isPrefix_fresh (others : List String) (name : String) :
    name.toList <+: (fresh others name).toList := by
  fun_induction fresh others name with
  | case1 name _ ih =>
    rw [String.toList_append] at ih
    exact (List.prefix_append _ _).trans ih
  | case2 name h => exact List.prefix_rfl

/-- The first letter tells the names that start with `field_` from those of the generated code. -/
theorem isTaken_eq_false_of_field {name : String} (h : "field_".toList <+: name.toList) :
    isTaken name = false := by
  obtain ⟨rest, hrest⟩ := h
  have hhead : name.toList.head? = some 'f' := by
    rw [← hrest]
    rfl
  have hown : name ∉ ownVariables := by
    intro hmem
    simp only [ownVariables, List.mem_cons, List.not_mem_nil, or_false] at hmem
    rcases hmem with rfl | rfl | rfl | rfl | rfl | rfl | rfl <;> exact absurd hhead (by decide)
  have hprefix : ∀ c cs, c ≠ 'f' → ¬ c :: cs <+: name.toList := by
    intro c cs hc hcs
    obtain ⟨ds, hds, -⟩ := List.cons_prefix_iff.1 hcs
    rw [hds] at hhead
    exact hc (Option.some.inj hhead)
  exact isTaken_eq_false_iff.2 ⟨hown, hprefix 'r' _ (by decide), hprefix 'w' _ (by decide)⟩

/-- Appending to a name that starts with `field_` never makes it one of the names that are kept. -/
theorem isTaken_fresh (others : List String) (name : String) :
    isTaken (fresh others ("field_" ++ name)) = false := by
  refine isTaken_eq_false_of_field (List.IsPrefix.trans ?_ (isPrefix_fresh others _))
  rw [String.toList_append]
  exact List.prefix_append _ _

theorem length_variablesFor (fields renamed names : List String) :
    (variablesFor fields renamed names).length = names.length := by
  induction names generalizing renamed with
  | nil => rfl
  | cons name names ih =>
    unfold variablesFor
    split <;> simp [ih]

theorem isTaken_variablesFor {fields renamed names : List String} :
    ∀ v ∈ variablesFor fields renamed names, isTaken v = false := by
  induction names generalizing renamed with
  | nil => simp [variablesFor]
  | cons name names ih =>
    intro v hv
    unfold variablesFor at hv
    split at hv
    · rcases List.mem_cons.1 hv with rfl | hv
      · exact isTaken_fresh _ _
      · exact ih v hv
    · next htaken =>
      rcases List.mem_cons.1 hv with rfl | hv
      · simpa using htaken
      · exact ih v hv

/-- A variable is a field's own name, or it is no field's name and new among the renamed ones. -/
theorem mem_variablesFor {fields renamed names : List String} :
    ∀ v ∈ variablesFor fields renamed names, v ∈ names ∨ v ∉ fields ∧ v ∉ renamed := by
  induction names generalizing renamed with
  | nil => simp [variablesFor]
  | cons name names ih =>
    intro v hv
    unfold variablesFor at hv
    split at hv
    · have hnew := fresh_not_mem (fields ++ renamed) ("field_" ++ name)
      rw [List.mem_append, not_or] at hnew
      rcases List.mem_cons.1 hv with rfl | hv
      · exact .inr hnew
      · rcases ih v hv with h | ⟨hfields, hrenamed⟩
        · exact .inl (List.mem_cons_of_mem name h)
        · exact .inr ⟨hfields, fun h => hrenamed (List.mem_cons_of_mem _ h)⟩
    · rcases List.mem_cons.1 hv with rfl | hv
      · exact .inl List.mem_cons_self
      · exact (ih v hv).imp_left (List.mem_cons_of_mem name)

/-- Distinct fields get distinct variables. A renamed one avoids the fields and those renamed before. -/
theorem nodup_variablesFor {fields renamed names : List String} (hsub : names ⊆ fields) (hnodup : names.Nodup) :
    (variablesFor fields renamed names).Nodup := by
  induction names generalizing renamed with
  | nil => exact List.nodup_nil
  | cons name names ih =>
    rw [List.nodup_cons] at hnodup
    have hlater : names ⊆ fields := fun n hn => hsub (List.mem_cons_of_mem name hn)
    unfold variablesFor
    split
    · have hnew := fresh_not_mem (fields ++ renamed) ("field_" ++ name)
      rw [List.mem_append, not_or] at hnew
      refine List.nodup_cons.2 ⟨fun hmem => ?_, ih hlater hnodup.2⟩
      rcases mem_variablesFor _ hmem with h | ⟨-, h⟩
      · exact hnew.1 (hlater h)
      · exact h List.mem_cons_self
    · refine List.nodup_cons.2 ⟨fun hmem => ?_, ih hlater hnodup.2⟩
      rcases mem_variablesFor _ hmem with h | ⟨h, -⟩
      · exact hnodup.1 h
      · exact h (hsub List.mem_cons_self)

/-- A field keeps its name unless generated code has that name, and the variable of a field has at most this
one of the fields' names. -/
theorem forall₂_variablesFor (fields renamed names : List String) :
    List.Forall₂ (fun name v => (isTaken name = false → v = name) ∧ (v ∈ fields → v = name)) names
      (variablesFor fields renamed names) := by
  induction names generalizing renamed with
  | nil => exact .nil
  | cons name names ih =>
    unfold variablesFor
    split
    · next htaken =>
      have hnew := fresh_not_mem (fields ++ renamed) ("field_" ++ name)
      rw [List.mem_append, not_or] at hnew
      refine .cons ⟨fun hfree => ?_, fun hmem => absurd hmem hnew.1⟩ (ih _)
      rw [htaken] at hfree
      cases hfree
    · exact .cons ⟨fun _ => rfl, fun _ => rfl⟩ (ih _)

variable {s : Struct}

theorem length_fieldVariables (s : Struct) : (fieldVariables s).length = s.fields.length := by
  unfold fieldVariables
  rw [length_variablesFor, List.length_map]

theorem isTaken_fieldVariables : ∀ v ∈ fieldVariables s, isTaken v = false := isTaken_variablesFor

theorem forall₂_fieldVariables (s : Struct) :
    List.Forall₂ (fun f v => (isTaken f.name = false → v = f.name) ∧ (v ∈ s.fields.map (·.name) → v = f.name))
      s.fields (fieldVariables s) :=
  List.forall₂_map_left_iff.1 (forall₂_variablesFor _ [] _)

theorem nodup_fieldVariables (h : (s.fields.map (·.name)).Nodup) : (fieldVariables s).Nodup :=
  nodup_variablesFor (List.Subset.refl _) h

end BufferSchema.Luau
