import BufferSchema.Proofs.Schema.HelperOrder

/-!
# Schemas with the same references

The walks along the references of a schema look at the names of its structs, at their indices, and at the fields of
a struct that refers to itself. Places and marks they do not see. So in two schemas which agree in what is looked at,
the search for cycles has the same outcome, and where the flags are the same, the same helpers are needed in the same
order.
-/

namespace BufferSchema.Schema

variable {s s' : Schema}

/-- The structs of two schemas have the same names, and those of one name have the same fields and the same index. -/
structure SameGraph (s s' : Schema) : Prop where
  keys : s.structs.keys = s'.structs.keys
  fields : ∀ name, (s.structs.find? name).map (·.fields) = (s'.structs.find? name).map (·.fields)
  references : ∀ name, (s.structs.find? name).map (·.references) = (s'.structs.find? name).map (·.references)

/-- The helpers that are needed by themselves can be told by looking at one name after the other. -/
theorem helperRoots_eq_filter (s : Schema) : s.helperRoots =
    s.structs.keys.filter fun name =>
      name != s.exports && ((s.structs.find? name).map (·.everReferenced)).getD false := by
  rw [helperRoots, Table.keys, List.filter_map]
  congr 1
  refine List.filter_congr fun e he => ?_
  have hfind : s.structs.find? e.1 = some e.2 := Table.find?_eq_some_iff.2 he
  simp only [Function.comp_apply, hfind, Option.map_some, Option.getD_some]

namespace SameGraph

variable (h : s.SameGraph s')

include h

theorem targets_eq (name : String) : s.targets name = s'.targets name := by
  have htargets : ∀ s : Schema,
      s.targets name = ((s.structs.find? name).map (·.references)).elim [] Table.keys := by
    intro s
    unfold targets
    cases s.structs.find? name <;> rfl
  rw [htargets, htargets, h.references name]

theorem refersTo_iff {source target : String} : s.RefersTo source target ↔ s'.RefersTo source target := by
  rw [RefersTo, RefersTo, h.targets_eq]

/-- A struct of one schema has a counterpart in the other one. -/
theorem exists_find? {name : String} {t : Struct} (ht : s.structs.find? name = some t) :
    ∃ t', s'.structs.find? name = some t' ∧ t'.fields = t.fields ∧ t'.references = t.references := by
  have hfields := h.fields name
  have hreferences := h.references name
  rw [ht, Option.map_some, eq_comm, Option.map_eq_some_iff] at hfields hreferences
  obtain ⟨t', ht', hfields⟩ := hfields
  obtain ⟨t'', ht'', hreferences⟩ := hreferences
  obtain rfl := Option.some.inj (ht'.symm.trans ht'')
  exact ⟨t', ht', hfields, hreferences⟩

theorem find?_eq_none {name : String} (hs : s.structs.find? name = none) : s'.structs.find? name = none := by
  simpa [hs] using (h.fields name).symm

/-- Coming back to a struct is told by the same error, with the same fields. -/
theorem revisit_eq (path : List String) (name : String) : s.revisit path name = s'.revisit path name := by
  unfold revisit
  cases hs : s.structs.find? name with
  | none => rw [h.find?_eq_none hs]
  | some t =>
    obtain ⟨t', hs', hfields, hreferences⟩ := h.exists_find? hs
    rw [hs', Option.map_some, Option.map_some, Struct.fieldsReferencing, Struct.fieldsReferencing, hfields,
      hreferences]

omit h

mutual

/-- The search goes the same way, as it looks at references only. -/
theorem search_eq (h : s.SameGraph s') (path good : List String) (name : String) :
    s.search path good name = s'.search path good name := by
  rw [Schema.search_eq, Schema.search_eq, h.revisit_eq]
  split
  · rfl
  · split
    · rfl
    · cases hs : s.structs.find? name with
      | none => rw [h.find?_eq_none hs]
      | some t =>
        obtain ⟨t', hs', -, hreferences⟩ := h.exists_find? hs
        simp only [hs', hreferences, searchAll_eq h (name :: path) good t.references.keys]
termination_by (s.unentered path, 0)
decreasing_by exact Prod.Lex.left _ _ (unentered_cons_lt (Table.mem_of_find?_eq_some ‹_›) ‹_›)

theorem searchAll_eq (h : s.SameGraph s') (path good names : List String) :
    s.searchAll path good names = s'.searchAll path good names := by
  cases names with
  | nil => rw [searchAll, searchAll]
  | cons name names =>
    rw [searchAll_cons, searchAll_cons, search_eq h path good name]
    cases s'.search path good name with
    | error e => rfl
    | ok good' => exact searchAll_eq h path good' names
termination_by (s.unentered path, names.length + 1)
decreasing_by
  · exact Prod.Lex.right _ (by simp)
  · subst_vars
    exact Prod.Lex.right _ (by simp)

end

theorem checkAcyclic_eq (h : s.SameGraph s') : s.checkAcyclic = s'.checkAcyclic := by
  rw [checkAcyclic, checkAcyclic, h.keys, h.searchAll_eq]

mutual

theorem place_eq (h : s.SameGraph s') (path sorted : List String) (name : String) :
    s.place path sorted name = s'.place path sorted name := by
  by_cases hlisted : name ∈ sorted ∨ name ∈ path
  · rw [place_of_listed hlisted, place_of_listed hlisted]
  · obtain ⟨hs, hp⟩ := not_or.1 hlisted
    rw [place_of_new hs hp, place_of_new hs hp, h.targets_eq]
    cases hf : s.structs.find? name with
    | none =>
      have hnone : s'.targets name = [] := by rw [← h.targets_eq, targets, hf]
      rw [hnone, placeAll, placeAll]
    | some t => rw [placeAll_eq h (name :: path) sorted (s'.targets name)]
termination_by (s.unentered path, 0)
decreasing_by exact Prod.Lex.left _ _ (unentered_cons_lt (Table.mem_of_find?_eq_some ‹_›) ‹_›)

theorem placeAll_eq (h : s.SameGraph s') (path sorted names : List String) :
    s.placeAll path sorted names = s'.placeAll path sorted names := by
  cases names with
  | nil => rw [placeAll, placeAll]
  | cons name names =>
    rw [placeAll, placeAll, place_eq h path sorted name]
    exact placeAll_eq h path (s'.place path sorted name) names
termination_by (s.unentered path, names.length + 1)
decreasing_by
  · exact Prod.Lex.right _ (by simp)
  · subst_vars
    exact Prod.Lex.right _ (by simp)

end

theorem helperOrder_eq (h : s.SameGraph s') (hexports : s.exports = s'.exports)
    (hflags : ∀ name,
      (s.structs.find? name).map (·.everReferenced) = (s'.structs.find? name).map (·.everReferenced)) :
    s.helperOrder = s'.helperOrder := by
  have hroots : s.helperRoots = s'.helperRoots := by
    simp only [helperRoots_eq_filter, h.keys, hexports, hflags]
  rw [helperOrder, helperOrder, hroots, h.placeAll_eq]

end SameGraph

end BufferSchema.Schema
