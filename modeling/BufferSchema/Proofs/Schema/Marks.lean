import BufferSchema.Proofs.Schema.Acyclic
import BufferSchema.Proofs.Schema.Outline
import BufferSchema.Proofs.Table
import BufferSchema.Schema.Analysis

/-!
# What the marks of the analysis change

The analysis only notes on each struct who refers to it. What the text of the schema said stays as it
was, and so does the index of references, which holds the structs that the fields are made of. A struct is
noted once by each struct that refers to it, and its flag is set if there is one.
-/

namespace BufferSchema

namespace Struct

variable {s : Struct}

/-- The struct with a reference from each of `sources` on record. -/
def markAll (s : Struct) (sources : List Struct) : Struct :=
  sources.foldl (fun t source => t.markReferencedBy source.name) s

theorem markAll_cons (s source : Struct) (sources : List Struct) :
    s.markAll (source :: sources) = (s.markReferencedBy source.name).markAll sources :=
  rfl

theorem declaration_markAll (sources : List Struct) : (s.markAll sources).declaration = s.declaration := by
  unfold markAll
  induction sources generalizing s with
  | nil => rfl
  | cons source sources ih => rw [List.foldl_cons, ih]; rfl

@[simp] theorem name_markAll (sources : List Struct) : (s.markAll sources).name = s.name :=
  congrArg Declaration.name (declaration_markAll sources)

@[simp] theorem fields_markAll (sources : List Struct) : (s.markAll sources).fields = s.fields :=
  congrArg Declaration.fields (declaration_markAll sources)

theorem references_markAll (sources : List Struct) : (s.markAll sources).references = s.references := by
  unfold markAll
  induction sources generalizing s with
  | nil => rfl
  | cons source sources ih => rw [List.foldl_cons, ih, references_markReferencedBy]

theorem everReferenced_markAll (sources : List Struct) :
    (s.markAll sources).everReferenced = (s.everReferenced || !sources.isEmpty) := by
  unfold markAll
  induction sources generalizing s with
  | nil => simp
  | cons source sources ih => simp [ih]

/-- Marks from structs with names of their own are kept in the order of the structs. -/
theorem keys_referencedBy_markAll {sources : List Struct}
    (h : (s.referencedBy.keys ++ sources.map (·.name)).Nodup) :
    (s.markAll sources).referencedBy.keys = s.referencedBy.keys ++ sources.map (·.name) := by
  induction sources generalizing s with
  | nil => simp [markAll]
  | cons source sources ih =>
    have hnew : source.name ∉ s.referencedBy := by
      intro hmem
      rw [List.nodup_append] at h
      exact h.2.2 _ hmem _ (by simp) rfl
    have hkeys : (s.markReferencedBy source.name).referencedBy.keys = s.referencedBy.keys ++ [source.name] := by
      rw [markReferencedBy, Table.alter, Table.keys_insert, if_neg hnew]
    rw [markAll_cons, ih (by simpa [hkeys] using h), hkeys]
    simp

/-- Marks from structs with names of their own add one to the count of each. -/
theorem find?_referencedBy_markAll {sources : List Struct} (h : (sources.map (·.name)).Nodup) (name : String) :
    (s.markAll sources).referencedBy.find? name =
      if name ∈ sources.map (·.name) then some ((s.referencedBy.find? name).getD 0 + 1)
      else s.referencedBy.find? name := by
  induction sources generalizing s with
  | nil => simp [markAll]
  | cons source sources ih =>
    rw [List.map_cons, List.nodup_cons] at h
    have hfirst : (s.markReferencedBy source.name).referencedBy.find? name =
        if name = source.name then some ((s.referencedBy.find? source.name).getD 0 + 1)
        else s.referencedBy.find? name :=
      Table.find?_alter ..
    rw [markAll_cons, ih h.2, hfirst]
    by_cases hname : name = source.name
    · subst hname
      simp [h.1]
    · simp [hname]

/-- The index of the struct holds the structs that its fields are made of. -/
def Indexed (s : Struct) : Prop :=
  ∀ target, target ∈ s.references ↔ ∃ f ∈ s.fields, f.type.element.structName? = some target

/-- Pushing a field keeps the index of references in step with the fields. -/
theorem Indexed.push (h : s.Indexed) (f : Field) : (s.push f).Indexed := by
  intro target
  simp only [fields_push, List.mem_append, List.mem_singleton, or_and_right, exists_or, exists_eq_left]
  rw [← h target]
  simp only [Struct.push]
  split
  · next name hname => simp [Table.alter, Table.mem_insert, hname, or_comm, eq_comm]
  · next hname => simp [hname]

theorem indexed_foldl_push (fs : List Field) (h : s.Indexed) : (fs.foldl Struct.push s).Indexed := by
  induction fs generalizing s with
  | nil => exact h
  | cons f fs ih => exact ih (h.push f)

theorem everReferenced_foldl_push (fs : List Field) :
    (fs.foldl Struct.push s).everReferenced = s.everReferenced := by
  induction fs generalizing s with
  | nil => rfl
  | cons f fs ih => rw [List.foldl_cons, ih]; rfl

end Struct

namespace Schema

variable {s : Schema}

/-- Each struct is marked by the structs that refer to it. -/
theorem markReferences_structs (s : Schema) :
    s.markReferences.structs = s.structs.mapValues fun name t => t.markAll (s.referrers name) :=
  rfl

theorem keys_markReferences (s : Schema) : s.markReferences.structs.keys = s.structs.keys := by
  rw [markReferences_structs, Table.keys_mapValues]

theorem find?_markReferences (s : Schema) (name : String) :
    s.markReferences.structs.find? name = (s.structs.find? name).map fun t => t.markAll (s.referrers name) := by
  rw [markReferences_structs, Table.find?_mapValues]

/-- The marks do not change what the text said. -/
theorem outline_markReferences (s : Schema) : s.markReferences.outline = s.outline := by
  simp [outline, markReferences_structs, Table.values, Table.mapValues, Function.comp_def,
    Struct.declaration_markAll]
  rfl

/-- Every struct stands under its own name. -/
def Named (s : Schema) : Prop := ∀ e ∈ s.structs.entries, e.1 = e.2.name

instance (s : Schema) : Decidable s.Named := inferInstanceAs (Decidable (∀ e ∈ s.structs.entries, e.1 = e.2.name))

theorem Named.keys_eq (h : s.Named) : s.structs.keys = s.structs.values.map (·.name) := by
  rw [Table.keys, Table.values, List.map_map]
  exact List.map_congr_left h

/-- The structs that refer to one, by their names. -/
theorem Named.names_referrers (h : s.Named) (target : String) :
    (s.referrers target).map (·.name) = s.structs.keys.filter fun source => s.RefersTo source target := by
  rw [referrers, Table.values, List.filter_map, Table.keys, List.filter_map, List.map_map]
  refine (List.map_congr_left fun e he => ?_).trans (congrArg _ (List.filter_congr fun e he => ?_))
  · exact (h e (List.mem_of_mem_filter he)).symm
  · have hfind : s.structs.find? e.1 = some e.2 := Table.find?_eq_some_iff.2 he
    simp only [Function.comp_apply, RefersTo, targets_of_find? hfind, Table.mem_iff]

/-- The structs that mark another are those that refer to it. -/
theorem Named.mem_names_referrers_iff (h : s.Named) {source target : String} :
    source ∈ (s.referrers target).map (·.name) ↔ s.RefersTo source target := by
  rw [h.names_referrers, List.mem_filter, decide_eq_true_eq]
  exact and_iff_right_of_imp mem_structs_of_refersTo

theorem Named.nodup_names_referrers (h : s.Named) (target : String) :
    ((s.referrers target).map (·.name)).Nodup := by
  rw [h.names_referrers]
  exact s.structs.nodup_keys.filter _

theorem Named.referrers_ne_nil_iff (h : s.Named) {target : String} :
    s.referrers target ≠ [] ↔ ∃ source, s.RefersTo source target := by
  rw [ne_eq, ← List.map_eq_nil_iff (f := (·.name)), List.eq_nil_iff_forall_not_mem]
  simp only [h.mem_names_referrers_iff, not_forall, not_not]

/-- A mark counts one more for each struct that refers to the marked one, and the others are kept. -/
theorem Named.find?_referencedBy (h : s.Named) (t : Struct) (name source : String) :
    (t.markAll (s.referrers name)).referencedBy.find? source =
      if s.RefersTo source name then some ((t.referencedBy.find? source).getD 0 + 1)
      else t.referencedBy.find? source := by
  rw [Struct.find?_referencedBy_markAll (h.nodup_names_referrers name)]
  simp only [h.mem_names_referrers_iff]

theorem Named.everReferenced_iff (h : s.Named) (t : Struct) (name : String) :
    (t.markAll (s.referrers name)).everReferenced = true ↔
      t.everReferenced = true ∨ ∃ source, s.RefersTo source name := by
  rw [Struct.everReferenced_markAll, Bool.or_eq_true, Bool.not_eq_true', List.isEmpty_eq_false_iff,
    ← h.referrers_ne_nil_iff]

/-- Marking changes no name. -/
theorem Named.markReferences (h : s.Named) : s.markReferences.Named := by
  intro e he
  rw [markReferences_structs] at he
  obtain ⟨⟨name, t⟩, ht, rfl⟩ := List.mem_map.1 he
  exact (h _ ht).trans (t.name_markAll _).symm

/-- Every struct of the table stands under its own name, with an index of what its fields are made of. -/
def Indexed (s : Schema) : Prop := ∀ e ∈ s.structs.entries, e.1 = e.2.name ∧ e.2.Indexed

theorem Indexed.named (h : s.Indexed) : s.Named := fun e he => (h e he).1

theorem Indexed.markReferences (h : s.Indexed) : s.markReferences.Indexed := by
  intro e he
  rw [markReferences_structs] at he
  obtain ⟨⟨name, t⟩, ht, rfl⟩ := List.mem_map.1 he
  obtain ⟨hname, hindex⟩ := h _ ht
  refine ⟨hname.trans (t.name_markAll _).symm, fun target => ?_⟩
  rw [Struct.references_markAll, Struct.fields_markAll]
  exact hindex target

/-- References are what the text of the schema says they are. -/
theorem Indexed.refersTo_iff (h : s.Indexed) {source target : String} :
    s.RefersTo source target ↔ s.outline.Refers source target := by
  unfold RefersTo Outline.Refers
  constructor
  · intro ht
    cases hfind : s.structs.find? source with
    | none => simp [targets, hfind] at ht
    | some t =>
      rw [targets_of_find? hfind] at ht
      have hmem := Table.find?_eq_some_iff.1 hfind
      obtain ⟨hname, hindex⟩ := h _ hmem
      have ht : t ∈ s.structs.values := List.mem_map_of_mem (f := Prod.snd) hmem
      exact ⟨t.declaration, List.mem_map_of_mem ht, hname.symm, (hindex target).1 ‹_›⟩
  · rintro ⟨d, hd, rfl, hfields⟩
    obtain ⟨t, ht, rfl⟩ := List.mem_map.1 hd
    obtain ⟨⟨key, t'⟩, hmem, rfl⟩ := List.mem_map.1 ht
    obtain ⟨hname, hindex⟩ := h _ hmem
    have hfind : s.structs.find? t'.name = some t' := by
      rw [Table.find?_eq_some_iff, ← hname]
      exact hmem
    exact (targets_of_find? hfind).symm ▸ (hindex target).2 hfields

theorem Indexed.refersTo_eq (h : s.Indexed) : s.RefersTo = s.outline.Refers := by
  funext source target
  exact propext h.refersTo_iff

end Schema

end BufferSchema
