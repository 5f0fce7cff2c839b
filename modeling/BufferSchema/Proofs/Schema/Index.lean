import BufferSchema.Proofs.Schema.Verdict
import Mathlib.Data.List.Basic

/-!
# The index of a struct

Beside its fields, a struct keeps an index: for each struct that fields are made of, the numbers of these fields.
Fields are only ever put in behind the others, and each is indexed as it is put in. So the index always says what
could be read off the fields: which structs they are made of, in the order of first use, and which field is made of
which struct.
-/

namespace BufferSchema

theorem eraseDups_concat (l : List String) (a : String) :
    (l ++ [a]).eraseDups = if a ∈ l then l.eraseDups else l.eraseDups ++ [a] := by
  rw [List.eraseDups_append]
  by_cases h : a ∈ l <;> simp [List.removeAll, List.eraseDups_cons, h]

/-- The members at the places where a property holds are the members that have it. -/
theorem filterMap_findIdxs {α : Type} (p : α → Bool) (l : List α) :
    (l.findIdxs p).filterMap (fun i => l[i]?) = l.filter p := by
  induction l with
  | nil => rfl
  | cons a l ih =>
    have hlater : (l.findIdxs p 1).filterMap (fun i => (a :: l)[i]?) = l.filter p := by
      rw [List.findIdxs_start, List.filterMap_map, ← ih]
      rfl
    rw [List.findIdxs_cons, List.filter_cons]
    split
    · rw [List.filterMap_cons, List.getElem?_cons_zero, hlater]
    · exact hlater

namespace Struct

variable {t : Struct} {f : Field} {name target : String} {numbers : List Nat}

theorem references_push_of_builtin (hname : f.type.element.structName? = none) :
    (t.push f).references = t.references := by
  simp only [Struct.push, hname]

theorem references_push_of_struct (hname : f.type.element.structName? = some name) :
    (t.push f).references = t.references.alter name fun numbers? => numbers?.getD [] ++ [t.fields.length] := by
  simp only [Struct.push, hname]

/-- The index holds what the fields are made of, in the order of first use, each with the numbers of its fields. -/
structure Exact (t : Struct) : Prop where
  keys : t.references.keys = (t.fields.filterMap fun f => f.type.element.structName?).eraseDups
  find? : ∀ target ∈ t.references, t.references.find? target =
    some (t.fields.findIdxs fun f => f.type.element.structName? = some target)

theorem exact_of_fields_eq_nil (hfields : t.fields = []) (hindex : t.references = ∅) : t.Exact where
  keys := by rw [hindex, hfields]; rfl
  find? target hmem := by rw [hindex] at hmem; cases hmem

namespace Exact

theorem mem_filterMap_iff (h : t.Exact) :
    target ∈ t.references ↔ target ∈ t.fields.filterMap fun f => f.type.element.structName? := by
  rw [Table.mem_iff, h.keys, List.mem_eraseDups]

theorem indexed (h : t.Exact) : t.Indexed := fun _ => h.mem_filterMap_iff.trans List.mem_filterMap

/-- A struct that no field is made of has no numbers. -/
theorem find?_getD (h : t.Exact) (target : String) : (t.references.find? target).getD [] =
    t.fields.findIdxs fun f => f.type.element.structName? = some target := by
  by_cases hmem : target ∈ t.references
  · rw [h.find? target hmem, Option.getD_some]
  · rw [Table.find?_eq_none_iff.2 hmem, Option.getD_none]
    refine (List.findIdxs_eq_nil_iff.2 fun f hf => decide_eq_false fun hname => ?_).symm
    exact hmem ((h.indexed target).2 ⟨f, hf, hname⟩)

theorem find?_eq_some (h : t.Exact) (hfind : t.references.find? target = some numbers) :
    numbers = t.fields.findIdxs fun f => f.type.element.structName? = some target := by
  rw [← h.find?_getD target, hfind, Option.getD_some]

/-- A field that is put in comes last, and so does its number. -/
theorem findIdxs_push (h : t.Exact) (f : Field) (target : String) :
    ((t.push f).fields.findIdxs fun g => g.type.element.structName? = some target) =
      (t.references.find? target).getD [] ++
        if f.type.element.structName? = some target then [t.fields.length] else [] := by
  rw [fields_push, List.findIdxs_append, ← h.find?_getD target, List.findIdxs_singleton, Nat.zero_add]
  simp only [decide_eq_true_eq]

theorem push (h : t.Exact) (f : Field) : (t.push f).Exact := by
  cases hname : f.type.element.structName? with
  | none =>
    refine ⟨?_, fun target hmem => ?_⟩
    · rw [references_push_of_builtin hname, h.keys, fields_push, List.filterMap_append]
      simp only [List.filterMap_cons, hname, List.filterMap_nil, List.append_nil]
    · rw [references_push_of_builtin hname] at hmem ⊢
      rw [h.findIdxs_push, hname, if_neg (by simp), List.append_nil, h.find? target hmem, Option.getD_some]
  | some name =>
    refine ⟨?_, fun target hmem => ?_⟩
    · rw [references_push_of_struct hname, Table.alter, Table.keys_insert, fields_push, List.filterMap_append]
      simp only [List.filterMap_cons, hname, List.filterMap_nil, eraseDups_concat, ← h.keys, h.mem_filterMap_iff]
    · rw [references_push_of_struct hname] at hmem ⊢
      rw [Table.find?_alter, h.findIdxs_push, hname]
      by_cases heq : target = name
      · rw [if_pos heq, heq, if_pos rfl]
      · have hkept : target ∈ t.references := (Table.mem_insert.1 hmem).resolve_left heq
        rw [if_neg heq, if_neg (by simpa using Ne.symm heq), List.append_nil, h.find? target hkept, Option.getD_some]

theorem foldl_push (h : t.Exact) (fs : List Field) : (fs.foldl Struct.push t).Exact := by
  induction fs generalizing t with
  | nil => exact h
  | cons f fs ih => exact ih (h.push f)

theorem numbers_ne_nil (h : t.Exact) (hfind : t.references.find? target = some numbers) : numbers ≠ [] := by
  rw [h.find?_eq_some hfind, ne_eq, List.findIdxs_eq_nil_iff]
  obtain ⟨f, hf, hname⟩ := (h.indexed target).1 (Table.mem_of_find?_eq_some hfind)
  intro hnone
  exact of_decide_eq_false (hnone f hf) hname

/-- The numbers of a struct are those of the fields made of it. -/
theorem mem_numbers_iff (h : t.Exact) (hfind : t.references.find? target = some numbers) (i : Nat) :
    i ∈ numbers ↔ ∃ f, t.fields[i]? = some f ∧ f.type.element.structName? = some target := by
  rw [h.find?_eq_some hfind, List.mem_findIdxs_iff_exists_getElem_pos]
  constructor
  · rintro ⟨hi, hname⟩
    exact ⟨t.fields[i], List.getElem?_eq_getElem hi, of_decide_eq_true hname⟩
  · rintro ⟨f, hf, hname⟩
    obtain ⟨hi, rfl⟩ := List.getElem?_eq_some_iff.1 hf
    exact ⟨hi, decide_eq_true hname⟩

theorem pairwise_numbers (h : t.Exact) (hfind : t.references.find? target = some numbers) :
    numbers.Pairwise (· < ·) := by
  rw [h.find?_eq_some hfind]
  exact List.pairwise_findIdxs

/-- The fields that are found through the index are those made of the struct, in their order. -/
theorem fieldsReferencing_eq (h : t.Exact) (target : String) : t.fieldsReferencing target =
    (t.fields.filter fun f => f.type.element.structName? = some target).map fun f => s!"{f.name}:{f.type.name}" := by
  rw [fieldsReferencing, h.find?_getD, filterMap_findIdxs]

end Exact

/-- The index is what putting in the fields, one after the other, makes of an empty one. -/
def Built (t : Struct) : Prop := t.references = (t.declaration.build t.position).references

instance (t : Struct) : Decidable t.Built :=
  inferInstanceAs (Decidable (t.references = (t.declaration.build t.position).references))

theorem Built.exact (h : t.Built) : t.Exact := by
  have hexact : (t.declaration.build t.position).Exact := (exact_of_fields_eq_nil rfl rfl).foldl_push _
  have hfields : (t.declaration.build t.position).fields = t.fields :=
    congrArg Declaration.fields (t.declaration.declaration_build t.position)
  exact ⟨by rw [h, hexact.keys, hfields], by rw [h, ← hfields]; exact hexact.find?⟩

theorem Unmarked.built (h : t.Unmarked) : t.Built := congrArg references h

end Struct

namespace Schema

variable {s : Schema}

/-- Every struct stands under its own name, with the index that its fields make. -/
def Built (s : Schema) : Prop := ∀ e ∈ s.structs.entries, e.1 = e.2.name ∧ e.2.Built

instance (s : Schema) : Decidable s.Built :=
  inferInstanceAs (Decidable (∀ e ∈ s.structs.entries, e.1 = e.2.name ∧ e.2.Built))

theorem Built.indexed (h : s.Built) : s.Indexed := fun e he => ⟨(h e he).1, (h e he).2.exact.indexed⟩

end Schema

end BufferSchema
