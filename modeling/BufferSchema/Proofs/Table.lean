import BufferSchema.Table

/-!
# The entries of a table

What a table finds under a key is the one entry with that key.
-/

namespace BufferSchema.Table

variable {α : Type} {t : Table α} {key k : String} {value : α}

theorem mem_insert : k ∈ t.insert key value ↔ k = key ∨ k ∈ t := by
  rw [mem_iff, keys_insert]
  split
  · next h =>
    constructor
    · exact .inr
    · rintro (rfl | hk)
      · exact h
      · exact hk
  · simp [mem_iff, or_comm]

theorem find?_eq_some_iff : t.find? key = some value ↔ (key, value) ∈ t.entries := by
  have hnodup := t.nodup_keys
  unfold find?
  generalize t.entries = es at hnodup
  induction es with
  | nil => simp
  | cons e es ih =>
    obtain ⟨k, v⟩ := e
    simp only [List.map_cons, List.nodup_cons] at hnodup
    by_cases h : key = k
    · subst h
      have hlater : (key, value) ∉ es := fun hmem => hnodup.1 (List.mem_map.2 ⟨_, hmem, rfl⟩)
      simp [hlater, eq_comm]
    · have hb : (key == k) = false := by simpa using h
      simp [List.lookup_cons, hb, h, ih hnodup.2]

theorem exists_find?_of_mem (h : key ∈ t) : ∃ value, t.find? key = some value := by
  cases hfind : t.find? key with
  | none => exact absurd h (find?_eq_none_iff.1 hfind)
  | some value => exact ⟨value, rfl⟩

/-- A table is given by its entries in their order. -/
theorem ext_entries {t' : Table α} (h : t.entries = t'.entries) : t = t' := by
  cases t
  cases t'
  congr

/-- Whether values are changed before or after one is put in makes no difference. -/
theorem mapValues_insert {β : Type} (f : α → β) (t : Table α) (key : String) (value : α) :
    (t.insert key value).mapValues (fun _ v => f v) = (t.mapValues fun _ v => f v).insert key (f value) := by
  apply ext_entries
  have hkeys : key ∈ (t.mapValues fun _ v => f v).keys ↔ key ∈ t.keys := by rw [keys_mapValues]
  unfold insert
  by_cases h : key ∈ t.keys
  · rw [dif_pos h, dif_pos (hkeys.2 h)]
    simp only [modify, mapValues, List.map_map]
    refine List.map_congr_left fun e _ => ?_
    simp only [Function.comp_apply, apply_ite f]
  · rw [dif_neg h, dif_neg (mt hkeys.1 h)]
    simp [mapValues]

end BufferSchema.Table
